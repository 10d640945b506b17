import Intel8080.Console
import Intel8080.Proofs.Cpu.Recording
import Intel8080.Proofs.Session.Supply

/-! A device matters to a run only through the bytes that it answers with, so a console that cannot
write disturbs no program. Beside a device that does nothing but keep a record, any console leads
to the same end, and its sink holds the bytes that were put out, up to its room. -/

namespace Intel8080

variable {β γ : Type}

namespace PortCall

/-- The byte that was put out, if any was. -/
def output? : PortCall → Option Byte
  | read _ _ => none
  | write _ v => some v

end PortCall

/-- The bytes that the calls put out, in order. -/
def outputs (calls : List PortCall) : List Byte := calls.filterMap PortCall.output?

@[simp] theorem outputs_read (calls : List PortCall) (port v : Byte) :
    outputs (calls ++ [.read port v]) = outputs calls := by
  simp [outputs, PortCall.output?]

@[simp] theorem outputs_write (calls : List PortCall) (port v : Byte) :
    outputs (calls ++ [.write port v]) = outputs calls ++ [v] := by
  simp [outputs, PortCall.output?]

/-- What fits of some bytes into a room, if there is a limit to it. -/
def fitting : Option Nat → List Byte → List Byte
  | some n, vs => vs.take n
  | none, vs => vs

namespace Sink

/-- The sink holds what fits of the bytes. -/
structure Holds (room : Option Nat) (vs : List Byte) (s : Sink) : Prop where
  bound : s.room = room
  written : s.written.toList = fitting room vs

variable {room : Option Nat} {vs : List Byte} {s : Sink}

theorem Holds.empty (room : Option Nat) : Holds room [] { room } := by
  refine ⟨rfl, ?_⟩
  cases room with
  | none => rfl
  | some n => exact List.take_nil.symm

/-- A byte joins the others or, if the sink is full, is lost. -/
theorem Holds.write (h : Holds room vs s) (v : Byte) :
    Holds room (vs ++ [v]) ((s.write? v).getD s) := by
  obtain ⟨hbound, hwritten⟩ := h
  cases room with
  | none =>
    have hw : s.write? v = some { s with written := s.written.push v } := by
      rw [write?, hbound]
      rfl
    rw [hw]
    refine ⟨hbound, ?_⟩
    rw [Option.getD_some, Array.toList_push, hwritten]
    rfl
  | some n =>
    have hsize : s.written.size = min n vs.length := by
      rw [← Array.length_toList, hwritten, fitting, List.length_take]
    by_cases hfull : n ≤ vs.length
    · have hw : s.write? v = none := by
        rw [write?, hbound, Option.any_some, if_pos (decide_eq_true (by omega))]
      rw [hw]
      refine ⟨hbound, ?_⟩
      rw [Option.getD_none, hwritten, fitting, fitting, List.take_append_of_le_length hfull]
    · have hw : s.write? v = some { s with written := s.written.push v } := by
        rw [write?, hbound, Option.any_some, if_neg (by rw [decide_eq_true_eq]; omega)]
      have hlength : (vs ++ [v]).length ≤ n := by
        rw [List.length_append, List.length_singleton]
        omega
      rw [hw]
      refine ⟨hbound, ?_⟩
      rw [Option.getD_some, Array.toList_push, hwritten, fitting, fitting,
        List.take_of_length_le (by omega), List.take_of_length_le hlength]

end Sink

namespace Console

/-- Any console agrees with a device that only keeps a record, and its sink holds what fits of the
recorded output. -/
theorem null_agree (room : Option Nat) :
    Bus.null.recorded.Agree True (fun x sink => sink.Holds room (outputs x.2)) bus where
  read x sink port h := by
    refine ⟨rfl, .nil, .event _, ?_⟩
    dsimp only [Bus.recorded]
    rw [outputs_read]
    exact h
  write x sink port v h := by
    have hw := h.write v
    rw [← outputs_write x.2 port v] at hw
    refine ⟨.nil, ?_, ?_⟩
    · unfold bus
      dsimp only
      split
      · exact .event _
      · exact (Discreet.event _).append (.event _)
    · unfold bus
      dsimp only
      split
      next hs =>
        rw [hs] at hw
        exact hw
      next hs =>
        rw [hs] at hw
        exact hw

end Console

namespace Session

/-- The runs made the same of the processor and counted the same. -/
structure SameRun (u : Session β) (v : Session γ) : Prop where
  cpu : v.cpu = u.cpu
  tally : v.tally = u.tally

variable {kept : Prop} {R : β → γ → Prop} {bus : Bus β} {bus' : Bus γ} {limit : Option Nat}
  {s u : Session β} {v : Session γ} {p : Progress}

theorem Abreast.sameRun (h : Abreast kept R u v) : SameRun u v := ⟨h.cpu, h.tally⟩

theorem SameRun.symm (h : SameRun u v) : SameRun v u := ⟨h.cpu.symm, h.tally.symm⟩

theorem SameRun.trans {δ : Type} {w : Session δ} (h : SameRun u v) (h' : SameRun v w) :
    SameRun u w :=
  ⟨h'.cpu.trans h.cpu, h'.tally.trans h.tally⟩

theorem abreast_onto (kept : Prop) (s : Session β) {b' : γ} (h : R s.device b') :
    Abreast kept R s.start (s.onto b').start :=
  ⟨rfl, rfl, .refl _, fun _ => rfl, h⟩

/-- Where the devices keep their senders, a run with no other senders ends on one as it does on
the other. -/
theorem Ends.agree (he : Ends bus limit s.start p u) (hb : bus.Agree True R bus') {b' : γ}
    (hd : R s.device b') :
    ∃ v, Ends bus' limit (s.onto b').start p v ∧ SameRun u v ∧ R u.device v.device := by
  obtain ⟨q, v, hv, hpaired⟩ := (abreast_onto True s hd).ends hb he
  obtain rfl := hpaired.progress.eq trivial
  exact ⟨v, hv, hpaired.abreast.sameRun, hpaired.abreast.device⟩

/-- Beside a run on any console there is one that keeps a record of its calls. -/
theorem Ends.on_record {s : Session Unit} {u : Session Sink} {room : Option Nat}
    (he : Ends Console.bus limit (s.onto { room }).start p u) :
    ∃ w, Ends Bus.null.recorded limit (s.onto ((), [])).start p w ∧ SameRun u w ∧
      u.device.Holds room (outputs w.device.2) :=
  he.agree (Console.null_agree room).symm (Sink.Holds.empty room)

theorem Ends.on_console {s : Session Unit} {w : Session (Unit × List PortCall)}
    (room : Option Nat) (he : Ends Bus.null.recorded limit (s.onto ((), [])).start p w) :
    ∃ u, Ends Console.bus limit (s.onto { room }).start p u ∧ SameRun w u ∧
      u.device.Holds room (outputs w.device.2) :=
  he.agree (Console.null_agree room) (Sink.Holds.empty room)

/-- Runs that have come to the same. -/
structure SameResult (r : Progress × Session β) (r' : Progress × Session γ) : Prop where
  progress : r'.1 = r.1
  same : SameRun r.2 r'.2

theorem SameResult.symm {r : Progress × Session β} {r' : Progress × Session γ}
    (h : SameResult r r') : SameResult r' r := ⟨h.progress.symm, h.same.symm⟩

theorem SameResult.trans {δ : Type} {r : Progress × Session β} {r' : Progress × Session γ}
    {r'' : Progress × Session δ} (h : SameResult r r') (h' : SameResult r' r'') :
    SameResult r r'' :=
  ⟨h'.progress.trans h.progress, h.same.trans h'.same⟩

theorem Paired.sameResult {r : Progress × Session β} {r' : Progress × Session γ}
    (h : Paired kept R r r') (hk : kept) : SameResult r r' :=
  ⟨h.progress.eq hk, h.abreast.sameRun⟩

/-- What a run that made the calls has poured into two sinks, one of them with room for `n`
bytes. -/
structure Poured (n : Nat) (calls : List PortCall) (u v : Session Sink) : Prop where
  limited : u.device.written.toList = (outputs calls).take n
  unlimited : v.device.written.toList = outputs calls

/-- On any console a run goes along a schedule as it does on a device that keeps a record, and the
sink holds what fits of the recorded output. -/
theorem follow_console (limit : Option Nat) (s : Session Unit) (room : Option Nat)
    (schedule : List Occasion) :
    SameResult ((s.onto ((), [])).follow Bus.null.recorded limit schedule)
        ((s.onto { room }).follow Console.bus limit schedule) ∧
      ((s.onto { room }).follow Console.bus limit schedule).2.device.Holds room
        (outputs ((s.onto ((), [])).follow Bus.null.recorded limit schedule).2.device.2) := by
  have h₀ : Abreast True (fun x sink => Sink.Holds room (outputs x.2) sink)
      (s.onto ((), [])).start (s.onto { room }).start :=
    abreast_onto True (s.onto ((), [])) (Sink.Holds.empty room)
  have h := h₀.follow trivial (Console.null_agree room) limit schedule
  exact ⟨h.sameResult trivial, h.abreast.device⟩

/-- Devices that answer alike and send no signals make no difference to a run. If neither gives up
a sender, runs on both come to the same along every schedule of rounds and of what other senders
do. If one does, it may halt a processor for good where the other leaves it waiting, and otherwise
the runs end alike, as do runs among other senders for which there is suitable traffic. In
particular a sink that is full makes no difference, and it holds the first bytes put out. -/
theorem answers_decide :
    (∀ {β γ : Type} (bus : Bus β) (bus' : Bus γ) (limit : Option Nat) (s : Session β) (b' : γ),
      bus.SendsNone s.device → bus'.SendsNone b' → bus.AnswersLike s.device bus' b' →
        (bus.KeepsSender s.device ∧ bus'.KeepsSender b' → ∀ schedule,
          SameResult (s.follow bus limit schedule) ((s.onto b').follow bus' limit schedule)) ∧
        (∀ p u, Ends bus limit s.start p u →
          ∃ q v, Ends bus' limit (s.onto b').start q v ∧ SameRun u v ∧
            (q = p ∨
              ¬ (bus.KeepsSender s.device ∧ bus'.KeepsSender b') ∧
                (p = .blocked ∧ q = .stopped .halted ∨ p = .stopped .halted ∧ q = .blocked))) ∧
        ∀ xs p u, Returns bus limit s xs p u →
          ∃ v, Returns bus' limit (s.onto b') xs p v ∧ SameRun u v) ∧
    ∀ (limit : Option Nat) (s : Session Unit) (n : Nat) (schedule : List Occasion),
      let u := (s.onto { room := some n }).follow Console.bus limit schedule
      let v := (s.onto {}).follow Console.bus limit schedule
      let w := (s.onto ((), [])).follow Bus.null.recorded limit schedule
      SameResult u v ∧ SameResult u w ∧ Poured n w.2.device.2 u.2 v.2 := by
  refine ⟨fun bus bus' limit s b' hnone hnone' halike => ?_, fun limit s n schedule => ?_⟩
  · let kept := bus.KeepsSender s.device ∧ bus'.KeepsSender b'
    have hb := Bus.indistinct_agree kept bus bus'
    have hd : bus.Indistinct kept bus' s.device b' :=
      ⟨halike, hnone, hnone', And.left, And.right⟩
    have h₀ := abreast_onto kept s hd
    refine ⟨fun hk schedule => (h₀.follow hk hb limit schedule).sameResult hk, fun p u he => ?_,
      fun xs p u hu => ?_⟩
    · obtain ⟨q, v, hv, hpaired⟩ := h₀.ends hb he
      exact ⟨q, v, hv, hpaired.abreast.sameRun, hpaired.progress.cases⟩
    · obtain ⟨v, hv, h⟩ := hu.abreast (hb.mono False.elim) (abreast_onto False s hd) (.refl _)
      exact ⟨v, hv, h.sameRun⟩
  · obtain ⟨hlimited, hheld⟩ := follow_console limit s (some n) schedule
    obtain ⟨hunlimited, hheld'⟩ := follow_console limit s none schedule
    exact ⟨hlimited.symm.trans hunlimited, hlimited.symm, hheld.written, hheld'.written⟩

/-- A processor that is to put out a byte and to halt, with a sender to wake it. -/
def printer : Session Unit where
  cpu :=
    { core := Core.initial { memorySize := 3 }
      memory := ⟨#[0xD3, 0x01, 0x76], by decide, by decide⟩
      latch := none
      config := { memorySize := 3 } }
  device := ()

/-- The processor has halted and waits when the power goes off. -/
def untilPowerOff : List Occasion := [.round, .round, .round, .act (.send .powerOff), .round]

theorem console_emits (sink : Sink) (x : PortRequest) :
    Discreet True (Console.bus.emits sink x) := by
  cases x with
  | read port => exact .event _
  | write port v =>
    unfold Bus.emits Console.bus
    dsimp only
    split
    · exact .event _
    · exact (Discreet.event _).append (.event _)

theorem null_emits (x : PortRequest) : Discreet True (Bus.null.emits () x) := by
  cases x <;> exact .nil

/-- With no room at all the byte is lost, and nothing else changes. -/
theorem answers_decide_full_sink :
    ((printer.onto {}).follow Console.bus none untilPowerOff).1 = .stopped .powerOff ∧
      ((printer.onto {}).follow Console.bus none untilPowerOff).2.device.written.toList = [0] ∧
      SameResult ((printer.onto { room := some 0 }).follow Console.bus none untilPowerOff)
        ((printer.onto {}).follow Console.bus none untilPowerOff) ∧
      Poured 0 [.write 1 0]
        ((printer.onto { room := some 0 }).follow Console.bus none untilPowerOff).2
        ((printer.onto {}).follow Console.bus none untilPowerOff).2 ∧
      SameResult ((printer.onto ({ room := some 0 } : Sink)).follow Console.bus none untilPowerOff)
        (printer.follow Bus.null none untilPowerOff) := by
  obtain ⟨hconsole, -, hpoured⟩ := answers_decide.2 none printer 0 untilPowerOff
  have hnull := (answers_decide.1 Console.bus Bus.null none
    (printer.onto ({ room := some 0 } : Sink)) () (fun _ x => (console_emits _ x).signals)
    (fun _ x => (null_emits x).signals) fun _ _ => rfl).1
    ⟨fun _ x => (console_emits _ x).hangUps trivial, fun _ x => (null_emits x).hangUps trivial⟩
    untilPowerOff
  exact ⟨rfl, rfl, hconsole, hpoured, hnull⟩

end Session

end Intel8080
