import Intel8080.Cycles
import Mathlib.Logic.Function.Basic

/-! Memory as a map. An image of `n` bytes holds a byte at each address below `n`, zero to begin
with. Bytes and words are read and written and programs are loaded in any order, and every use
answers as the map does. A byte is written or refused as a whole and so is a program, but of a word
the low byte can be written before the high one is refused. -/

namespace Intel8080

/-- A use of a memory image. -/
inductive MemoryUse where
  | read (addr : Word)
  | write (addr : Word) (v : Byte)
  | readWord (addr : Word)
  | writeWord (addr w : Word)
  | load (offset : Word) (program : Array Byte)

namespace MemoryUse

/-- The addresses that are accessed one by one, in order. -/
def addresses : MemoryUse → List Word
  | read addr | write addr _ => [addr]
  | readWord addr | writeWord addr _ => [addr, addr + 1]
  | load _ _ => []

/-- All that is used lies within an image of that size. -/
def Fits (n : Nat) : MemoryUse → Prop
  | read addr | write addr _ => addr.toNat < n
  | readWord addr | writeWord addr _ => addr.toNat < n ∧ (addr + 1).toNat < n
  | load offset program => offset.toNat + program.size ≤ n

end MemoryUse

/-- What a use hands back. -/
inductive Datum where
  | nothing
  | byte (v : Byte)
  | word (w : Word)
  deriving DecidableEq

namespace Memory

/-- The answer to a use, and the image it leaves. -/
def use (m : Memory) : MemoryUse → Except Fault Datum × Memory
  | .read addr => ((m.read addr).map .byte, m)
  | .write addr v => ((m.write addr v).1.map fun _ => .nothing, (m.write addr v).2)
  | .readWord addr =>
    (((Cycles.readWord addr).perform m).1.map .word, ((Cycles.readWord addr).perform m).2)
  | .writeWord addr w =>
    (((Cycles.writeWord addr w).perform m).1.map fun _ => .nothing,
      ((Cycles.writeWord addr w).perform m).2)
  | .load offset program =>
    match m.load offset program with
    | .ok m => (.ok .nothing, m)
    | .error fault => (.error fault, m)

/-- Uses one after the other, with their answers. -/
def useAll : List MemoryUse → Memory → List (Except Fault Datum) × Memory
  | [], m => ([], m)
  | x :: xs, m =>
    let (r, m) := m.use x
    let (rs, m) := useAll xs m
    (r :: rs, m)

end Memory

/-! ### The map -/

/-- A byte at each address of an image of `n` bytes. -/
abbrev Contents (n : Nat) := Fin n → Byte

namespace Contents

variable {n : Nat}

/-- The contents with the program from the offset on. -/
def overlay (offset : Word) (program : Array Byte) (f : Contents n) : Contents n := fun i =>
  if offset.toNat ≤ i then program.getD (i - offset.toNat) (f i) else f i

/-- The answer to a use, and the contents it leaves. -/
inductive Answered (f : Contents n) : MemoryUse → Except Fault Datum → Contents n → Prop
  | read {addr} (h : addr.toNat < n) :
      Answered f (.read addr) (.ok (.byte (f ⟨addr.toNat, h⟩))) f
  | write {addr v} (h : addr.toNat < n) :
      Answered f (.write addr v) (.ok .nothing) (Function.update f ⟨addr.toNat, h⟩ v)
  | readWord {addr} (h : addr.toNat < n) (h' : (addr + 1).toNat < n) :
      Answered f (.readWord addr)
        (.ok (.word (Word.ofBytes (f ⟨(addr + 1).toNat, h'⟩) (f ⟨addr.toNat, h⟩)))) f
  | writeWord {addr w} (h : addr.toNat < n) (h' : (addr + 1).toNat < n) :
      Answered f (.writeWord addr w) (.ok .nothing)
        (Function.update (Function.update f ⟨addr.toNat, h⟩ (Word.low w)) ⟨(addr + 1).toNat, h'⟩
          (Word.high w))
  | load {offset program} (h : offset.toNat + program.size ≤ n) :
      Answered f (.load offset program) (.ok .nothing) (f.overlay offset program)
  | refused {x addr rest} (hx : x.addresses = addr :: rest) (h : n ≤ addr.toNat) :
      Answered f x (.error (.addressOutOfRange addr n)) f
  | halfRead {addr} (h : addr.toNat < n) (h' : n ≤ (addr + 1).toNat) :
      Answered f (.readWord addr) (.error (.addressOutOfRange (addr + 1) n)) f
  | halfWritten {addr w} (h : addr.toNat < n) (h' : n ≤ (addr + 1).toNat) :
      Answered f (.writeWord addr w) (.error (.addressOutOfRange (addr + 1) n))
        (Function.update f ⟨addr.toNat, h⟩ (Word.low w))
  | tooLarge {offset program} (h : n < offset.toNat + program.size) :
      Answered f (.load offset program) (.error (.programTooLarge program.size offset n)) f

/-- The answers to uses one after the other, and the contents they leave. -/
inductive AnsweredAll :
    Contents n → List MemoryUse → List (Except Fault Datum) → Contents n → Prop
  | nil {f} : AnsweredAll f [] [] f
  | cons {f g k x xs r rs} (h : Answered f x r g) (ht : AnsweredAll g xs rs k) :
      AnsweredAll f (x :: xs) (r :: rs) k

/-- A use is granted if what it accesses lies within the image. -/
theorem Answered.granted_iff {f g : Contents n} {x : MemoryUse} {r : Except Fault Datum}
    (h : Answered f x r g) : (∃ d, r = .ok d) ↔ x.Fits n := by
  cases h with
  | read h | write h | load h => exact ⟨fun _ => h, fun _ => ⟨_, rfl⟩⟩
  | readWord h h' | writeWord h h' => exact ⟨fun _ => ⟨h, h'⟩, fun _ => ⟨_, rfl⟩⟩
  | @refused x addr rest hx h =>
    refine ⟨nofun, fun hfits => ?_⟩
    cases x with
    | read | write =>
      obtain rfl := (List.cons.inj hx).1
      exact absurd hfits (Nat.not_lt.mpr h)
    | readWord | writeWord =>
      obtain rfl := (List.cons.inj hx).1
      exact absurd hfits.1 (Nat.not_lt.mpr h)
    | load => cases hx
  | halfRead _ h' | halfWritten _ h' =>
    exact ⟨nofun, fun hfits => absurd hfits.2 (Nat.not_lt.mpr h')⟩
  | tooLarge h => exact ⟨nofun, fun hfits => absurd hfits (Nat.not_le.mpr h)⟩

/-- An access that is out of range is reported with the size of the image, and is the first. -/
theorem Answered.outOfRange {f g : Contents n} {x : MemoryUse} {addr : Word} {len : Nat}
    (h : Answered f x (.error (.addressOutOfRange addr len)) g) :
    len = n ∧ n ≤ addr.toNat ∧
      x.addresses.find? (fun a => decide (n ≤ a.toNat)) = some addr := by
  cases h with
  | refused hx h =>
    refine ⟨rfl, h, ?_⟩
    simp [hx, h]
  | halfRead h h' | halfWritten h h' =>
    refine ⟨rfl, h', ?_⟩
    simpa [MemoryUse.addresses, h] using h'

end Contents

/-! ### The image and the map -/

namespace Memory

variable {n : Nat} {m : Memory} {f g : Contents n} {addr : Word} {x : MemoryUse}

/-- The image holds these contents and nothing else. -/
structure Has (m : Memory) (f : Contents n) : Prop where
  size : m.bytes.size = n
  byte : ∀ i : Fin n, m.bytes[i.val]? = some (f i)

theorem ofSize_has (h : 0 < n ∧ n ≤ maxMemorySize) :
    ∃ m, ofSize n = .ok m ∧ m.Has fun _ : Fin n => 0 :=
  ⟨_, dif_pos h, Array.size_replicate, fun i => by simp⟩

namespace Has

theorem read (h : m.Has f) (ha : addr.toNat < n) : m.read addr = .ok (f ⟨addr.toNat, ha⟩) := by
  have hlt : addr.toNat < m.bytes.size := by rwa [h.size]
  have hbyte := h.byte ⟨addr.toNat, ha⟩
  rw [Array.getElem?_eq_getElem hlt, Option.some_inj] at hbyte
  rw [read_eq_ok m hlt, hbyte]

theorem read_refused (h : m.Has f) (ha : n ≤ addr.toNat) :
    m.read addr = .error (.addressOutOfRange addr n) := by
  have hle : m.size ≤ addr.toNat := by rwa [Memory.size, h.size]
  rw [read_eq_error m hle, Memory.size, h.size]

theorem write (h : m.Has f) (v : Byte) (ha : addr.toNat < n) :
    ∃ m', m.write addr v = (.ok (), m') ∧ m'.Has (Function.update f ⟨addr.toNat, ha⟩ v) := by
  have hlt : addr.toNat < m.bytes.size := by rwa [h.size]
  refine ⟨_, dif_pos hlt, by simpa using h.size, fun i => ?_⟩
  by_cases hi : i = ⟨addr.toNat, ha⟩
  · subst hi
    simp [hlt]
  · have hne : addr.toNat ≠ i.val := fun e => hi (Fin.ext e.symm)
    rw [Function.update_of_ne hi, Array.getElem?_set_ne hlt hne, h.byte i]

theorem write_refused (h : m.Has f) (v : Byte) (ha : n ≤ addr.toNat) :
    m.write addr v = (.error (.addressOutOfRange addr n), m) := by
  have hle : ¬ addr.toNat < m.bytes.size := by rwa [h.size, Nat.not_lt]
  rw [Memory.write, dif_neg hle, Memory.size, h.size]

theorem load (h : m.Has f) {offset : Word} {program : Array Byte}
    (hp : offset.toNat + program.size ≤ n) :
    ∃ m', m.load offset program = .ok m' ∧ m'.Has (f.overlay offset program) := by
  have hle : offset.toNat + program.size ≤ m.bytes.size := by rwa [h.size]
  refine ⟨_, dif_pos hle, ?_, fun i => ?_⟩
  · simp only [Array.size_append, Array.size_extract, h.size]
    omega
  · have hmin : min offset.toNat n - 0 = offset.toNat := by omega
    simp only [Array.getElem?_append, Array.getElem?_extract, Array.size_append,
      Array.size_extract, h.size, hmin, Contents.overlay]
    by_cases hbefore : i < offset.toNat
    · have hlt : i < offset.toNat + program.size := by omega
      simp [hbefore, hlt, Nat.not_le_of_lt hbefore, h.byte i]
    · by_cases hwithin : i < offset.toNat + program.size
      · have hindex : i - offset.toNat < program.size := by omega
        simp [hbefore, hwithin, Nat.le_of_not_lt hbefore, hindex]
      · have hindex : ¬ i - offset.toNat < program.size := by omega
        have hrest : i - (offset.toNat + program.size) < n - (offset.toNat + program.size) := by
          omega
        have hi : offset.toNat + program.size + (i - (offset.toNat + program.size)) = i := by omega
        simp [hwithin, hrest, hi, Nat.le_of_not_lt hbefore, hindex, h.byte i]

theorem load_refused (h : m.Has f) {offset : Word} {program : Array Byte}
    (hp : n < offset.toNat + program.size) :
    m.load offset program = .error (.programTooLarge program.size offset n) := by
  have hlt : ¬ offset.toNat + program.size ≤ m.bytes.size := by rwa [h.size, Nat.not_le]
  rw [Memory.load, dif_neg hlt, Memory.size, h.size]

end Has

/-! ### One use -/

theorem perform_readWord (m : Memory) (addr : Word) :
    (Cycles.readWord addr).perform m =
      ((m.read addr).bind fun low => (m.read (addr + 1)).map fun high => Word.ofBytes high low,
        m) := by
  simp only [Cycles.perform, Cycles.readWord, Cycles.readByte, Cycles.run_bind, Cycles.run]
  cases m.read addr with
  | error fault => rfl
  | ok low =>
    dsimp only [Trail.andThen]
    cases m.read (addr + 1) <;> rfl

/-- The high byte is written only once the low one is. -/
theorem perform_writeWord (m : Memory) (addr w : Word) :
    (Cycles.writeWord addr w).perform m =
      match m.write addr (Word.low w) with
      | (.ok (), m) => m.write (addr + 1) (Word.high w)
      | refused => refused := by
  simp only [Cycles.perform, Cycles.writeWord, Cycles.writeByte, Cycles.run_bind, Cycles.run]
  rcases m.write addr (Word.low w) with ⟨fault | ⟨⟩, m₁⟩
  · rfl
  · dsimp only [Trail.andThen]
    rcases m₁.write (addr + 1) (Word.high w) with ⟨fault | ⟨⟩, m₂⟩ <;> rfl

open Contents in
/-- Every use answers as the contents do, and the image has what they become. -/
theorem Has.use (h : m.Has f) (x : MemoryUse) :
    ∃ g, Answered f x (m.use x).1 g ∧ (m.use x).2.Has g := by
  cases x with
  | read addr =>
    by_cases ha : addr.toNat < n
    · rw [Memory.use, h.read ha]
      exact ⟨f, .read ha, h⟩
    · rw [Memory.use, h.read_refused (Nat.not_lt.mp ha)]
      exact ⟨f, .refused rfl (Nat.not_lt.mp ha), h⟩
  | write addr v =>
    by_cases ha : addr.toNat < n
    · obtain ⟨m', hw, h'⟩ := h.write v ha
      rw [Memory.use, hw]
      exact ⟨_, .write ha, h'⟩
    · rw [Memory.use, h.write_refused v (Nat.not_lt.mp ha)]
      exact ⟨f, .refused rfl (Nat.not_lt.mp ha), h⟩
  | readWord addr =>
    rw [Memory.use, perform_readWord]
    by_cases ha : addr.toNat < n
    · rw [h.read ha]
      by_cases ha' : (addr + 1).toNat < n
      · rw [h.read ha']
        exact ⟨f, .readWord ha ha', h⟩
      · rw [h.read_refused (Nat.not_lt.mp ha')]
        exact ⟨f, .halfRead ha (Nat.not_lt.mp ha'), h⟩
    · rw [h.read_refused (Nat.not_lt.mp ha)]
      exact ⟨f, .refused rfl (Nat.not_lt.mp ha), h⟩
  | writeWord addr w =>
    rw [Memory.use, perform_writeWord]
    by_cases ha : addr.toNat < n
    · obtain ⟨m₁, hlow, h₁⟩ := h.write (Word.low w) ha
      rw [hlow]
      by_cases ha' : (addr + 1).toNat < n
      · obtain ⟨m₂, hhigh, h₂⟩ := h₁.write (Word.high w) ha'
        dsimp only
        rw [hhigh]
        exact ⟨_, .writeWord ha ha', h₂⟩
      · dsimp only
        rw [h₁.write_refused _ (Nat.not_lt.mp ha')]
        exact ⟨_, .halfWritten ha (Nat.not_lt.mp ha'), h₁⟩
    · rw [h.write_refused _ (Nat.not_lt.mp ha)]
      exact ⟨f, .refused rfl (Nat.not_lt.mp ha), h⟩
  | load offset program =>
    by_cases hp : offset.toNat + program.size ≤ n
    · obtain ⟨m', hl, h'⟩ := h.load hp
      rw [Memory.use, hl]
      exact ⟨_, .load hp, h'⟩
    · rw [Memory.use, h.load_refused (Nat.not_le.mp hp)]
      exact ⟨f, .tooLarge (Nat.not_le.mp hp), h⟩

open Contents in
/-- Uses one after the other answer as the contents do. -/
theorem Has.useAll (h : m.Has f) (xs : List MemoryUse) :
    ∃ g, AnsweredAll f xs (m.useAll xs).1 g ∧ (m.useAll xs).2.Has g := by
  induction xs generalizing m f with
  | nil => exact ⟨f, .nil, h⟩
  | cons x xs ih =>
    obtain ⟨g, hx, hg⟩ := h.use x
    obtain ⟨k, hxs, hk⟩ := ih hg
    exact ⟨k, .cons hx hxs, hk⟩

/-- What the next use of an image of `n` bytes can come to. -/
structure Exact (n : Nat) (m : Memory) : Prop where
  size : m.size = n
  granted : ∀ x, (∃ d, (m.use x).1 = .ok d) ↔ x.Fits n
  /-- The first address beyond the image is reported, with the size of the image. -/
  outOfRange : ∀ x addr len, (m.use x).1 = .error (.addressOutOfRange addr len) →
    len = n ∧ n ≤ addr.toNat ∧ x.addresses.find? (fun a => decide (n ≤ a.toNat)) = some addr
  /-- A refused word has changed at most the byte at its own address, the last of the image. -/
  halfWritten : ∀ addr w fault, (m.use (.writeWord addr w)).1 = .error fault →
    (∀ other ≠ addr, (m.use (.writeWord addr w)).2.read other = m.read other) ∧
      ((m.use (.writeWord addr w)).2.read addr ≠ m.read addr →
        addr.toNat < n ∧ n ≤ addr.toNat + 1)
  /-- A written word is read back, and all other bytes are as before. -/
  readBack : ∀ addr w d, (m.use (.writeWord addr w)).1 = .ok d →
    ((m.use (.writeWord addr w)).2.use (.readWord addr)).1 = .ok (.word w) ∧
      ∀ other, other ≠ addr → other ≠ addr + 1 →
        (m.use (.writeWord addr w)).2.read other = m.read other
  /-- A program that is refused has changed nothing. -/
  unloaded : ∀ offset program fault, (m.use (.load offset program)).1 = .error fault →
    (m.use (.load offset program)).2 = m

theorem Has.read_congr {m' : Memory} {other : Word} (h : m.Has f) (h' : m'.Has g)
    (hb : ∀ ho : other.toNat < n, g ⟨other.toNat, ho⟩ = f ⟨other.toNat, ho⟩) :
    m'.read other = m.read other := by
  by_cases ho : other.toNat < n
  · rw [h.read ho, h'.read ho, hb ho]
  · rw [h.read_refused (Nat.not_lt.mp ho), h'.read_refused (Nat.not_lt.mp ho)]

theorem toNat_ne {other : Word} (h : other ≠ addr) (ho : other.toNat < n) (ha : addr.toNat < n) :
    (⟨other.toNat, ho⟩ : Fin n) ≠ ⟨addr.toNat, ha⟩ :=
  fun e => h (UInt16.toNat_inj.mp (Fin.mk.inj e))

theorem Has.halfWritten {w : Word} {fault : Fault} (h : m.Has f)
    (hr : (m.use (.writeWord addr w)).1 = .error fault) :
    (∀ other ≠ addr, (m.use (.writeWord addr w)).2.read other = m.read other) ∧
      ((m.use (.writeWord addr w)).2.read addr ≠ m.read addr →
        addr.toNat < n ∧ n ≤ addr.toNat + 1) := by
  obtain ⟨g, hx, hg⟩ := h.use (.writeWord addr w)
  rw [hr] at hx
  generalize (m.use (.writeWord addr w)).2 = m' at hg ⊢
  cases hx with
  | refused =>
    have hsame (other : Word) : m'.read other = m.read other := h.read_congr hg fun _ => rfl
    exact ⟨fun other _ => hsame other, fun hne => absurd (hsame addr) hne⟩
  | halfWritten ha ha' =>
    refine ⟨fun other ho => h.read_congr hg fun hlt => ?_, fun _ => ⟨ha, ?_⟩⟩
    · exact Function.update_of_ne (toNat_ne ho hlt ha) _ _
    · rw [UInt16.toNat_add] at ha'
      exact Nat.le_trans ha' (Nat.mod_le _ _)

theorem Has.readBack {w : Word} {d : Datum} (h : m.Has f)
    (hr : (m.use (.writeWord addr w)).1 = .ok d) :
    ((m.use (.writeWord addr w)).2.use (.readWord addr)).1 = .ok (.word w) ∧
      ∀ other, other ≠ addr → other ≠ addr + 1 →
        (m.use (.writeWord addr w)).2.read other = m.read other := by
  obtain ⟨g, hx, hg⟩ := h.use (.writeWord addr w)
  rw [hr] at hx
  generalize (m.use (.writeWord addr w)).2 = m' at hg ⊢
  cases hx with
  | writeWord ha ha' =>
    have hnext : addr ≠ addr + 1 := by simp
    have hne := toNat_ne hnext ha ha'
    refine ⟨?_, fun other ho ho' => h.read_congr hg fun hlt => ?_⟩
    · rw [Memory.use, perform_readWord, hg.read ha, hg.read ha', Function.update_self,
        Function.update_of_ne hne, Function.update_self]
      exact congrArg (fun w => Except.ok (Datum.word w)) (Word.ofBytes_high_low w)
    · rw [Function.update_of_ne (toNat_ne ho' hlt ha'), Function.update_of_ne (toNat_ne ho hlt ha)]

theorem Has.exact (h : m.Has f) : Exact n m where
  size := h.size
  granted x := by
    obtain ⟨g, hx, -⟩ := h.use x
    exact hx.granted_iff
  outOfRange x addr len hr := by
    obtain ⟨g, hx, -⟩ := h.use x
    rw [hr] at hx
    exact hx.outOfRange
  halfWritten _ _ _ hr := h.halfWritten hr
  readBack _ _ _ hr := h.readBack hr
  unloaded offset program fault hr := by
    rw [Memory.use] at hr ⊢
    cases hl : m.load offset program with
    | ok m' =>
      rw [hl] at hr
      cases hr
    | error => rfl

open Contents in
/-- A new image is used as a map that is zero to begin with, whatever the uses. -/
theorem uses_answered (n : Nat) (h : 0 < n ∧ n ≤ maxMemorySize) :
    ∃ m, ofSize n = .ok m ∧ ∀ xs,
      (∃ f : Contents n, AnsweredAll (fun _ => 0) xs (m.useAll xs).1 f ∧ (m.useAll xs).2.Has f) ∧
        Exact n (m.useAll xs).2 := by
  obtain ⟨m, hm, hzero⟩ := ofSize_has h
  refine ⟨m, hm, fun xs => ?_⟩
  obtain ⟨f, hxs, hf⟩ := hzero.useAll xs
  exact ⟨⟨f, hxs, hf⟩, hf.exact⟩

open Contents in
/-- In two bytes, a word at the second is written by half. -/
theorem uses_answered_cramped :
    (0 < 2 ∧ 2 ≤ maxMemorySize) ∧ ∃ m, ofSize 2 = .ok m ∧
      (m.useAll [.load 1 #[7, 8], .writeWord 1 0xABCD, .readWord 0, .readWord 1]).1 =
        [.error (.programTooLarge 2 1 2), .error (.addressOutOfRange 2 2), .ok (.word 0xCD00),
          .error (.addressOutOfRange 2 2)] ∧
      ∀ xs,
        (∃ f : Contents 2, AnsweredAll (fun _ => 0) xs (m.useAll xs).1 f ∧
          (m.useAll xs).2.Has f) ∧ Exact 2 (m.useAll xs).2 := by
  have hsize : 0 < 2 ∧ 2 ≤ maxMemorySize := by decide
  obtain ⟨m, hm, h⟩ := uses_answered 2 hsize
  obtain rfl := Except.ok.inj hm
  exact ⟨hsize, _, rfl, rfl, h⟩

end Memory

end Intel8080
