import Intel8080.Proofs.Cycles.Atomic
import Intel8080.Proofs.Cycles.Correspondence
import Intel8080.Proofs.Cycles.Postcondition

/-! What is emitted, and by whom. Cycles note events and a device lets out signals and events of
its own. A muted device keeps its events to itself; on it everything goes on as before, only that
nothing is logged but what the cycles note. -/

namespace Intel8080

/-- The event of an emission that goes to the log. -/
def Emission.event? : Emission → Option Event
  | .event e => some e
  | .signal _ | .hangUp => none

/-- The emission goes to the mailbox. -/
def Emission.isTraffic : Emission → Bool
  | .event _ => false
  | .signal _ | .hangUp => true

/-- The events that go to the log, in order. -/
def logged (es : List Emission) : List Event := es.filterMap Emission.event?

@[simp] theorem logged_event (e : Event) (es : List Emission) :
    logged (.event e :: es) = e :: logged es := rfl

@[simp] theorem logged_append (es fs : List Emission) :
    logged (es ++ fs) = logged es ++ logged fs := List.filterMap_append

@[simp] theorem logged_map_event (es : List Event) : logged (es.map .event) = es := by
  induction es with
  | nil => rfl
  | cons e es ih => exact congrArg (e :: ·) ih

theorem logged_filter_isTraffic (es : List Emission) :
    logged (es.filter Emission.isTraffic) = [] := by
  induction es with
  | nil => rfl
  | cons e es ih => cases e <;> exact ih

theorem posted_filter_isTraffic (es : List Emission) (n : Nat) :
    posted (es.filter Emission.isTraffic) n = posted es n := by
  induction es generalizing n with
  | nil => rfl
  | cons e es ih =>
    cases e with
    | event e => exact ih n
    | hangUp => exact ih (n - 1)
    | signal x =>
      change (if n = 0 then _ else _) = if n = 0 then _ else _
      rw [ih, ih]

theorem hangUps_filter_isTraffic (es : List Emission) :
    hangUps (es.filter Emission.isTraffic) = hangUps es := List.count_filter rfl

/-- Emissions of which nothing but events was left out. -/
structure Muffled (es es' : List Emission) : Prop where
  sublist : es'.Sublist es
  traffic : es'.filter Emission.isTraffic = es.filter Emission.isTraffic

namespace Muffled

variable {es es' fs fs' : List Emission}

theorem refl (es : List Emission) : Muffled es es := ⟨.refl es, rfl⟩

theorem append (h : Muffled es es') (h' : Muffled fs fs') : Muffled (es ++ fs) (es' ++ fs') :=
  ⟨h.sublist.append h'.sublist, by simp only [List.filter_append, h.traffic, h'.traffic]⟩

theorem filter (es : List Emission) : Muffled es (es.filter Emission.isTraffic) :=
  ⟨List.filter_sublist, by rw [List.filter_filter]; simp⟩

/-- The same is sent, and the same senders are given up. -/
theorem posted (h : Muffled es es') (n : Nat) : posted es' n = Intel8080.posted es n := by
  rw [← posted_filter_isTraffic es', h.traffic, posted_filter_isTraffic]

theorem hangUps (h : Muffled es es') : hangUps es' = Intel8080.hangUps es := by
  rw [← hangUps_filter_isTraffic es', h.traffic, hangUps_filter_isTraffic]

theorem logged (h : Muffled es es') : (logged es').Sublist (Intel8080.logged es) :=
  h.sublist.filterMap _

end Muffled

variable {α γ β : Type}

/-- The same device without the events that it lets out. -/
def Bus.muted (bus : Bus β) : Bus β where
  read b port :=
    match bus.read b port with
    | (v, b, es) => (v, b, es.filter Emission.isTraffic)
  write b port v :=
    match bus.write b port v with
    | (b, es) => (b, es.filter Emission.isTraffic)

/-- Trails with the same outcome, of which the second is muffled. -/
structure Trail.Muffled (t t' : Trail α β) : Prop where
  result : t'.result = t.result
  memory : t'.memory = t.memory
  bus : t'.bus = t.bus
  emitted : Intel8080.Muffled t.emitted t'.emitted

namespace Cycles

theorem run_muted (bus : Bus β) (c : Cycles α) (m : Memory) (b : β) :
    (c.run bus m b).Muffled (c.run bus.muted m b) := by
  have before {t t' : Trail α β} {es es' : List Emission} (he : Muffled es es')
      (h : t.Muffled t') : (t.emitBefore es).Muffled (t'.emitBefore es') :=
    ⟨h.result, h.memory, h.bus, he.append h.emitted⟩
  induction c generalizing m b with
  | done a | refuse f => exact ⟨rfl, rfl, rfl, .refl _⟩
  | note e next ih => exact before (.refl _) (ih m b)
  | read addr next ih =>
    rw [run, run]
    split
    · exact ih _ m b
    · exact ⟨rfl, rfl, rfl, .refl _⟩
  | write addr v next ih =>
    rw [run, run]
    split
    · exact ih _ b
    · exact ⟨rfl, rfl, rfl, .refl _⟩
  | input port next ih => exact before (.filter _) (ih _ m _)
  | output port v next ih => exact before (.filter _) (ih m _)

/-! ### Notes -/

/-- Every event that the cycles note satisfies `P`. -/
def Notes (P : Event → Prop) : Cycles α → Prop
  | done _ | refuse _ => True
  | note e next => P e ∧ next.Notes P
  | read _ next => ∀ v, (next v).Notes P
  | write _ _ next => next.Notes P
  | input _ next => ∀ v, (next v).Notes P
  | output _ _ next => next.Notes P

variable {P : Event → Prop} {bus : Bus β} {m : Memory} {b : β} {c : Cycles α}

theorem Notes.bind {f : α → Cycles γ} (h : c.Notes P) (hf : ∀ a, (f a).Notes P) :
    (c >>= f).Notes P := by
  change (c.bind f).Notes P
  induction c with
  | done a => exact hf a
  | refuse x => trivial
  | note e next ih => exact ⟨h.1, ih h.2⟩
  | read addr next ih => exact fun v => ih v (h v)
  | write addr v next ih => exact ih h
  | input port next ih => exact fun v => ih v (h v)
  | output port v next ih => exact ih h

/-- On a muted device nothing is logged but what is noted. -/
theorem Notes.logged (h : c.Notes P) (bus : Bus β) (m : Memory) (b : β) :
    ∀ e ∈ logged (c.run bus.muted m b).emitted, P e := by
  induction c generalizing m b with
  | done a | refuse f => exact fun _ he => absurd he List.not_mem_nil
  | note e next ih =>
    intro x hx
    rcases List.mem_cons.mp hx with rfl | hx
    · exact h.1
    · exact ih h.2 m b x hx
  | read addr next ih =>
    rw [run]
    split
    · exact ih _ (h _) m b
    · exact fun _ he => absurd he List.not_mem_nil
  | write addr v next ih =>
    rw [run]
    split
    · exact ih h _ b
    · exact fun _ he => absurd he List.not_mem_nil
  | input port next ih =>
    intro x hx
    simp only [run, Bus.muted, Trail.emitBefore, logged_append, logged_filter_isTraffic,
      List.nil_append] at hx
    exact ih _ (h _) m _ x hx
  | output port v next ih =>
    intro x hx
    simp only [run, Bus.muted, Trail.emitBefore, logged_append, logged_filter_isTraffic,
      List.nil_append] at hx
    exact ih h m _ x hx

/-! ### Cycles without ports -/

theorem Quiet.silent (h : c.Quiet) : c.Silent fun _ => True := by
  induction c with
  | done a | refuse f => trivial
  | note e next ih => exact ih h
  | read addr next ih => exact fun v => ih v (h v)
  | write addr v next ih => exact h.elim
  | input port next ih => exact h.elim
  | output port v next ih => exact h.elim

/-- What uses no port sends nothing. -/
theorem Silent.posted {P : α → Prop} (h : c.Silent P) (n : Nat) :
    posted (c.run bus m b).emitted n = [] := by
  induction c generalizing m with
  | done a | refuse f => rfl
  | note e next ih => exact ih h
  | read addr next ih =>
    rw [Cycles.run]
    split
    · exact ih _ (h _)
    · rfl
  | write addr v next ih =>
    rw [Cycles.run]
    split
    · exact ih h
    · rfl
  | input port next ih => exact h.elim
  | output port v next ih => exact h.elim

end Cycles

end Intel8080
