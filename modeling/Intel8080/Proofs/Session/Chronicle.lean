import Intel8080.Proofs.Cpu.Remarks
import Intel8080.Proofs.Session.Muting
import Intel8080.Proofs.Session.Underway

/-! The log as a record of the run. Every round has its incidents, which follow from what is
queued and from what the round decides, whether or not anything is logged. Put one after the other
they are the chronicle of the run, and the log tells of exactly these, in order, before it tells
how the run ended. -/

namespace Intel8080

open Relation

/-! ### What happens in a round -/

/-- The requests that give way in a poll, each with the newer one: of all that are pending or due
only the last is left. -/
def Mailbox.replacements (m : Mailbox) : List Incident :=
  let codes := m.pending.toList ++ requests m.due
  (codes.zip codes.tail).map fun x => .replaced x.1 x.2

theorem Mailbox.acceptAll_tells (xs : List Signal) (m : Mailbox) :
    let codes := m.pending.toList ++ requests xs
    (acceptAll xs m).2.filter Event.tells =
      (codes.zip codes.tail).map fun x => .replacedInterrupt x.1 x.2 := by
  induction xs generalizing m with
  | nil => cases hp : m.pending <;> rfl
  | cons x xs ih =>
    have hx := ih (m.accept x).1
    dsimp only at hx ⊢
    rw [acceptAll]
    dsimp only
    rw [List.filter_append, hx]
    cases x with
    | powerOff => rfl
    | interrupt code =>
      rw [requests_interrupt, accept]
      cases hp : m.pending <;> rfl

theorem Mailbox.poll_tells (m : Mailbox) :
    m.poll.2.filter Event.tells = m.replacements.map Incident.event := by
  unfold replacements due
  rw [List.map_map]
  cases hc : m.connected with
  | true =>
    simp only [poll, hc, if_true]
    exact acceptAll_tells m.queue { m with queue := [], connected := true }
  | false =>
    rw [poll_of_disconnected hc]
    cases m.pending <;> rfl

/-- A wait that is answered by a signal polls. -/
theorem Mailbox.wait?_true_poll {m m' : Mailbox} {es : List Event}
    (h : m.wait? = some (true, m', es)) : (m', es) = m.poll := by
  obtain ⟨hc, hq⟩ := wait?_true h
  obtain ⟨x, rest, hq⟩ := List.exists_cons_of_ne_nil hq
  simp only [wait?, hc, hq, if_true, Option.some.injEq, Prod.mk.injEq, true_and] at h
  exact h.symm

namespace Session

open Mailbox

variable {β : Type}

/-- What happens in a round that does not fault. -/
def incidents (limit : Option Nat) (s : Session β) : List Incident :=
  s.mailbox.replacements ++
    match s.poll.turn limit with
    | .service code => s.cpu.interruptIncidents code
    | .execute => s.cpu.fetchIncidents
    | _ => []

/-- The boundaries of a run that began in `s`, with what has happened so far. -/
inductive Chronicled (bus : Bus β) (limit : Option Nat) (s : Session β) :
    List Incident → Session β → Prop
  | start : Chronicled bus limit s [] s.start
  | traffic {xs t m} (h : Chronicled bus limit s xs t) (hm : Traffic t.mailbox m) :
      Chronicled bus limit s xs { t with mailbox := m }
  | round {xs t u p} (h : Chronicled bus limit s xs t) (hr : t.round bus limit = (p, u))
      (hp : p = .running ∨ p = .blocked) : Chronicled bus limit s (xs ++ t.incidents limit) u
  /-- The wait of a blocked round is answered once a signal has arrived. -/
  | woken {xs t u m m' es} (h : Chronicled bus limit s xs t)
      (hr : t.round bus limit = (.blocked, u)) (hm : ReflTransGen Traffic u.mailbox m)
      (hw : m.wait? = some (true, m', es)) :
      Chronicled bus limit s (xs ++ t.incidents limit ++ m.replacements)
        (recordAll es { u with mailbox := m' })

/-- From one session to the next the log has grown by what tells of the incidents and by mere
remarks, and the counts by the incidents that count. -/
structure Grown (s t : Session β) (xs : List Incident) : Prop where
  log : ∃ es, t.log.toList = s.log.toList ++ es ∧
    es.filter Event.tells = xs.map Incident.event
  instructions : t.tally.instructions = s.tally.instructions + countKind .fetched xs
  interrupts : t.tally.interrupts = s.tally.interrupts + countKind .interrupted xs
  latch : t.cpu.latch = none

/-- What a round on a muted device has logged. -/
inductive Noted (s : Session β) (xs : List Incident) : Progress → Session β → Prop
  | goesOn {p t} (hp : p = .running ∨ p = .blocked) (h : Grown s t xs) : Noted s xs p t
  | stopped {reason t} (h : Grown s t xs) : Noted s xs (.stopped reason) (t.stop reason).2
  | faulted {fault t pc es} (hl : t.cpu.latch = some ⟨fault, pc⟩)
      (hlog : t.log.toList = s.log.toList ++ (es ++ [.faulted pc fault]))
      (hes : ∀ e ∈ es, e.level ≠ .error) : Noted s xs (.faulted fault) t

/-- A request that gives way is neither an instruction nor an interrupt. -/
theorem countKind_replacements (m : Mailbox) :
    countKind .fetched m.replacements = 0 ∧ countKind .interrupted m.replacements = 0 := by
  unfold countKind replacements
  rw [List.countP_map, List.countP_map]
  exact ⟨List.countP_eq_zero.mpr nofun, List.countP_eq_zero.mpr nofun⟩

variable {bus : Bus β} {limit : Option Nat} {s t u : Session β} {xs ys : List Incident}

theorem Underway.chronicled {zs : List Signal} (h : Underway bus limit s zs t) :
    ∃ xs, Chronicled bus limit s xs t := by
  induction h with
  | start => exact ⟨[], .start⟩
  | traffic _ hm ih =>
    obtain ⟨xs, h⟩ := ih
    exact ⟨xs, h.traffic hm⟩
  | running _ hr ih =>
    obtain ⟨xs, h⟩ := ih
    exact ⟨_, h.round hr (.inl rfl)⟩
  | blocked _ hr ih =>
    obtain ⟨xs, h⟩ := ih
    exact ⟨_, h.round hr (.inr rfl)⟩

/-! ### On the muted device -/

theorem Quieter.incidents (h : Quieter s t) (limit : Option Nat) :
    t.incidents limit = s.incidents limit := by
  rw [Session.incidents, Session.incidents, h.mailbox, h.cpu, h.poll.turn]

/-- The same run takes place on the muted device, and the same happens in it. -/
theorem Chronicled.muted (h : Chronicled bus limit s xs t) :
    ∃ t', Chronicled bus.muted limit s xs t' ∧ Quieter t t' := by
  induction h with
  | start => exact ⟨_, .start, .refl _⟩
  | @traffic _ t m _ hm ih =>
    obtain ⟨t', ht', hq⟩ := ih
    exact ⟨_, ht'.traffic (hq.mailbox ▸ hm), hq.withMailbox m⟩
  | @round _ t u p _ hr hp ih =>
    obtain ⟨t', ht', hq⟩ := ih
    have hround := hq.round bus limit
    rcases hr' : t'.round bus.muted limit with ⟨p', u'⟩
    rw [hr, hr'] at hround
    obtain rfl : p' = p := hround.progress
    rw [← hq.incidents limit]
    exact ⟨u', ht'.round hr' hp, hround.session⟩
  | @woken _ t u m m' es _ hr hm hw ih =>
    obtain ⟨t', ht', hq⟩ := ih
    have hround := hq.round bus limit
    rcases hr' : t'.round bus.muted limit with ⟨p', u'⟩
    rw [hr, hr'] at hround
    obtain rfl : p' = .blocked := hround.progress
    have hmail : u'.mailbox = u.mailbox := hround.session.mailbox
    rw [← hq.incidents limit]
    exact ⟨_, ht'.woken hr' (hmail ▸ hm) hw, (hround.session.withMailbox m').recordAll es⟩

/-! ### What the log tells -/

namespace Grown

theorem refl (hl : s.cpu.latch = none) : Grown s s [] :=
  ⟨⟨[], (List.append_nil _).symm, rfl⟩, rfl, rfl, hl⟩

theorem trans (h : Grown s t xs) (h' : Grown t u ys) : Grown s u (xs ++ ys) := by
  obtain ⟨es, hlog, htells⟩ := h.log
  obtain ⟨fs, hlog', htells'⟩ := h'.log
  refine ⟨⟨es ++ fs, ?_, ?_⟩, ?_, ?_, h'.latch⟩
  · rw [hlog', hlog, List.append_assoc]
  · rw [List.filter_append, List.map_append, htells, htells']
  · rw [h'.instructions, h.instructions, countKind_append, Nat.add_assoc]
  · rw [h'.interrupts, h.interrupts, countKind_append, Nat.add_assoc]

theorem withMailbox (h : Grown s t xs) (m : Mailbox) : Grown s { t with mailbox := m } xs :=
  ⟨h.log, h.instructions, h.interrupts, h.latch⟩

/-- A remark tells of nothing. -/
theorem remark (h : Grown s t xs) {e : Event} (he : e.tells = false) : Grown s (t.record e) xs := by
  obtain ⟨es, hlog, htells⟩ := h.log
  refine ⟨⟨es ++ [e], ?_, ?_⟩, h.instructions, h.interrupts, h.latch⟩
  · rw [record, Array.toList_push, hlog, List.append_assoc]
  · have hnone : [e].filter Event.tells = [] := List.filter_eq_nil_iff.mpr fun x hx => by
      rw [List.mem_singleton.mp hx, he]
      exact Bool.false_ne_true
    rw [List.filter_append, htells, hnone, List.append_nil]

theorem poll (h : Grown s t xs) :
    Grown s (recordAll t.mailbox.poll.2 { t with mailbox := t.mailbox.poll.1 })
      (xs ++ t.mailbox.replacements) := by
  obtain ⟨hf, hi⟩ := countKind_replacements t.mailbox
  refine h.trans ⟨⟨_, Array.toList_appendList, t.mailbox.poll_tells⟩, ?_, ?_, h.latch⟩
  · rw [hf]
    rfl
  · rw [hi]
    rfl

/-- What tells of incidents is no error. -/
theorem noError {es : List Event} (h : es.filter Event.tells = xs.map Incident.event) :
    ∀ e ∈ es, e.level ≠ .error := by
  intro e he
  cases ht : e.tells with
  | false => exact Event.level_of_not_tells ht
  | true =>
    have hmem : e ∈ es.filter Event.tells := List.mem_filter.mpr ⟨he, ht⟩
    rw [h] at hmem
    obtain ⟨x, -, rfl⟩ := List.mem_map.mp hmem
    exact x.tells_event.2

/-- A call on the processor, whose states are then counted. -/
theorem called {α : Type} {r : Reply α β} (h : Grown s t xs) (hr : Logs ys r)
    (count : α → Tally → Tally)
    (hf : ∀ a x, (count a x).instructions = x.instructions + countKind .fetched ys)
    (hi : ∀ a x, (count a x).interrupts = x.interrupts + countKind .interrupted ys) :
    Noted s (xs ++ ys) (charge count (r.result, t.after r)).1
      (charge count (r.result, t.after r)).2 := by
  have htally := t.after_tally r
  have hcpu := t.after_cpu r
  have hlog := t.after_log r
  cases hr with
  | @granted a hr hl he =>
    rw [hr]
    refine .goesOn (.inl rfl) (h.trans ⟨⟨_, hlog, he⟩, ?_, ?_, hcpu ▸ hl⟩)
    · change (count a (t.after r).tally).instructions = _
      rw [hf, htally]
    · change (count a (t.after r).tally).interrupts = _
      rw [hi, htally]
  | @faulted fault pc fs hr hl he hfs =>
    obtain ⟨es, hbefore, htells⟩ := h.log
    have hnone : ∀ e ∈ es ++ fs, e.level ≠ .error :=
      List.forall_mem_append.mpr ⟨noError htells, hfs⟩
    rw [hr]
    refine .faulted (hcpu.symm ▸ hl) ?_ hnone
    change (t.after r).log.toList = _
    rw [hlog, hbefore, he]
    simp only [List.append_assoc]

end Grown

/-- A round logs what happens in it, and then how the run ends if it does. -/
theorem round_noted (bus : Bus β) (limit : Option Nat) (hl : s.cpu.latch = none) :
    Noted s (s.incidents limit) (s.round bus.muted limit).1 (s.round bus.muted limit).2 := by
  have hpolled : Grown s s.poll s.mailbox.replacements := (Grown.refl hl).poll
  have hd := turn_decided limit s.poll
  rw [round_eq_act, incidents]
  generalize s.poll.turn limit = x at hd ⊢
  cases hd with
  | powerOff =>
    rw [List.append_nil]
    exact .stopped (hpolled.remark rfl)
  | rest =>
    have hwait : s.poll.mailbox.wait? = _ := wait?_of_due (due_poll s.mailbox)
    rw [List.append_nil, act, await, hwait]
    split
    · by_cases hs : s.poll.mailbox.connected = true ∧ s.poll.mailbox.senders ≠ 0
      · rw [if_pos hs]
        exact .goesOn (.inr rfl) hpolled
      · rw [if_neg hs]
        exact .stopped (hpolled.withMailbox _)
    · exact .stopped hpolled
  | limit =>
    rw [List.append_nil]
    exact .stopped hpolled
  | @service code _ ha =>
    obtain ⟨hf, hi⟩ := s.cpu.countKind_interruptIncidents code
    rw [act_service, Session.interrupt, apply_eq]
    refine (hpolled.withMailbox _).called (s.cpu.interrupt_logs bus s.device ha) _ ?_ ?_
    · intro a x
      rw [hf]
      rfl
    · intro a x
      rw [hi]
      rfl
  | execute _ hh =>
    obtain ⟨hf, hi⟩ := s.cpu.countKind_fetchIncidents
    rw [act_execute, Session.step, apply_eq]
    refine hpolled.called (s.cpu.step_logs bus s.device hl hh) _ ?_ ?_
    · intro a x
      rw [hf]
      rfl
    · intro a x
      rw [hi]
      rfl

/-- A run on a muted device has logged just what tells of what has happened so far. -/
theorem Chronicled.grown (hl : s.cpu.latch = none) (h : Chronicled bus.muted limit s xs t) :
    Grown s.start t xs := by
  induction h with
  | start => exact .refl hl
  | traffic _ _ ih => exact ih.withMailbox _
  | @round _ t u p _ hr hp ih =>
    have hnoted := round_noted bus limit ih.latch
    rw [hr] at hnoted
    cases hnoted with
    | goesOn _ hgrown => exact ih.trans hgrown
    | stopped | faulted => rcases hp with hp | hp <;> cases hp
  | @woken _ t u m m' es _ hr _ hw ih =>
    have hnoted := round_noted bus limit ih.latch
    obtain ⟨rfl, rfl⟩ := Prod.mk.inj (wait?_true_poll hw)
    rw [hr] at hnoted
    cases hnoted with
    | goesOn _ hgrown => exact ((ih.trans hgrown).withMailbox m).poll

end Session

/-! ### The whole log -/

namespace Incident

/-- The processor in front of a fetched instruction. -/
def cpu? : Incident → Option Cpu
  | fetched cpu => some cpu
  | _ => none

end Incident

/-- What the lines of a run that stopped tell. -/
structure TellsStop (xs : List Incident) (es : List Event) (reason : StopReason) (t : Tally) :
    Prop where
  /-- For each kind of incident there are the lines of what happened, in order. -/
  kinds : ∀ k, es.filter (Event.ofKind k) = (xs.filter (Incident.ofKind k)).map Incident.event
  traced : es.filter (Event.atLevel .trace) = (xs.filterMap Incident.cpu?).map Cpu.announcement
  instructions : es.countP (Event.atLevel .trace) = t.instructions
  interrupts : es.countP (Event.ofKind .interrupted) = t.interrupts
  noError : ∀ e ∈ es, e.level ≠ .error
  last : es.getLast? = some (.stopped reason t.instructions t.interrupts)

/-- What the lines of a run that faulted tell. -/
structure TellsFault (es : List Event) (fault : Fault) (pc : Word) : Prop where
  last : es.getLast? = some (.faulted pc fault)
  once : es.countP (Event.atLevel .error) = 1

theorem filter_of_tells {es fs : List Event} {P : Event → Bool} (h : es.filter Event.tells = fs)
    (hP : ∀ e, P e = true → e.tells = true) : es.filter P = fs.filter P := by
  rw [← h, List.filter_filter]
  refine List.filter_congr fun e _ => ?_
  cases hp : P e with
  | false => rfl
  | true =>
    rw [hP e hp]
    rfl

theorem map_announcement (xs : List Incident) :
    (xs.filter (Incident.ofKind .fetched)).map Incident.event =
      (xs.filterMap Incident.cpu?).map Cpu.announcement := by
  induction xs with
  | nil => rfl
  | cons x xs ih =>
    cases x with
    | fetched cpu => exact congrArg (cpu.announcement :: ·) ih
    | _ => exact ih

theorem TellsStop.of_tells {xs : List Incident} {es : List Event} {reason : StopReason} {t : Tally}
    (h : es.filter Event.tells = xs.map Incident.event)
    (hf : t.instructions = countKind .fetched xs) (hi : t.interrupts = countKind .interrupted xs) :
    TellsStop xs (es ++ [.stopped reason t.instructions t.interrupts]) reason t := by
  have hkinds (k : Incident.Kind) :
      (es ++ [Event.stopped reason t.instructions t.interrupts]).filter (Event.ofKind k) =
        (xs.filter (Incident.ofKind k)).map Incident.event := by
    rw [List.filter_append, filter_of_tells h fun _ => Event.tells_of_ofKind, List.filter_map,
      Incident.ofKind_event]
    exact List.append_nil _
  have hcount (k : Incident.Kind) :
      (es ++ [Event.stopped reason t.instructions t.interrupts]).countP (Event.ofKind k) =
        countKind k xs := by
    rw [List.countP_eq_length_filter, hkinds, List.length_map, ← List.countP_eq_length_filter]
    rfl
  refine ⟨hkinds, ?_, ?_, ?_, ?_, List.getLast?_concat⟩
  · rw [Event.atLevel_trace, hkinds, map_announcement]
  · rw [Event.atLevel_trace, hcount, hf]
  · rw [hcount, hi]
  · exact List.forall_mem_append.mpr
      ⟨Session.Grown.noError h, List.forall_mem_singleton.mpr nofun⟩

theorem TellsFault.of_noError {es : List Event} {fault : Fault} {pc : Word}
    (h : ∀ e ∈ es, e.level ≠ .error) : TellsFault (es ++ [.faulted pc fault]) fault pc := by
  refine ⟨List.getLast?_concat, ?_⟩
  have hnone : es.countP (Event.atLevel .error) = 0 :=
    List.countP_eq_zero.mpr fun e he hlevel => h e he (of_decide_eq_true hlevel)
  rw [List.countP_append, hnone]
  rfl

namespace Session

variable {β : Type}

/-- What the lines `es` of a run tell that ended with `p` in `u` and in which `xs` happened. -/
structure Recorded (xs : List Incident) (es : List Event) (p : Progress) (u : Session β) :
    Prop where
  stopped : ∀ reason, p = .stopped reason → TellsStop xs es reason u.tally
  faulted : ∀ fault, p = .faulted fault →
    ∃ pc, u.cpu.latch = some ⟨fault, pc⟩ ∧ TellsFault es fault pc

theorem Noted.recorded {xs ys : List Incident} {p : Progress} {s t u : Session β}
    (h : Grown s.start t xs) (hn : Noted t ys p u) :
    ∃ es, u.log.toList = s.log.toList ++ es ∧ Recorded (xs ++ ys) es p u := by
  cases hn with
  | goesOn hp h' =>
    obtain ⟨es, hlog, -⟩ := (h.trans h').log
    refine ⟨es, hlog, ?_, ?_⟩ <;>
    · rintro _ rfl
      rcases hp with hp | hp <;> cases hp
  | @stopped reason t h' =>
    have hg := h.trans h'
    obtain ⟨es, hlog, htells⟩ := hg.log
    have hf : t.tally.instructions = countKind .fetched (xs ++ ys) := by
      rw [hg.instructions]
      exact Nat.zero_add _
    have hi : t.tally.interrupts = countKind .interrupted (xs ++ ys) := by
      rw [hg.interrupts]
      exact Nat.zero_add _
    refine ⟨es ++ [.stopped reason t.tally.instructions t.tally.interrupts], ?_, ?_, nofun⟩
    · rw [← List.append_assoc]
      change (t.log.push _).toList = _
      rw [Array.toList_push, hlog]
      rfl
    · rintro _ ⟨⟩
      exact .of_tells htells hf hi
  | @faulted fault _ pc fs hl hlog' hfs =>
    obtain ⟨es, hlog, htells⟩ := h.log
    have hnone : ∀ e ∈ es ++ fs, e.level ≠ .error :=
      List.forall_mem_append.mpr ⟨Grown.noError htells, hfs⟩
    refine ⟨es ++ fs ++ [.faulted pc fault], ?_, nofun, ?_⟩
    · rw [hlog', hlog]
      simp only [List.append_assoc]
      rfl
    · rintro _ ⟨⟩
      exact ⟨pc, hl, .of_noError hnone⟩

/-- The log records a run exactly. A run goes the same way on the muted device, and the lines `es`
that it logs there are those of its own; the full log holds them in the same order. -/
theorem log_records_run (bus : Bus β) (limit : Option Nat) (s : Session β)
    (hl : s.cpu.latch = none) :
    (∀ zs p u, Returns bus limit s zs p u →
      ∃ xs t, Chronicled bus limit s xs t ∧ t.round bus limit = (p, u)) ∧
    ∀ xs t p u, Chronicled bus limit s xs t → t.round bus limit = (p, u) →
      ∃ t' u' es, Chronicled bus.muted limit s xs t' ∧ t'.round bus.muted limit = (p, u') ∧
        Quieter u u' ∧ u'.log.toList = s.log.toList ++ es ∧
        Recorded (xs ++ t.incidents limit) es p u := by
  refine ⟨fun zs p u h => ?_, fun xs t p u h hr => ?_⟩
  · cases h with
    | @stopped _ t _ _ h hr | @faulted _ t _ _ h hr =>
      obtain ⟨xs, hx⟩ := h.chronicled
      exact ⟨xs, t, hx, hr⟩
  · obtain ⟨t', ht', hq⟩ := h.muted
    have hround := hq.round bus limit
    have hgrown := ht'.grown hl
    have hnoted := round_noted bus limit hgrown.latch
    rcases hr' : t'.round bus.muted limit with ⟨p', u'⟩
    rw [hr, hr'] at hround
    rw [hr', hq.incidents] at hnoted
    obtain rfl : p' = p := hround.progress
    obtain ⟨es, hlog, hrec⟩ := hnoted.recorded hgrown
    have htally : u'.tally = u.tally := hround.session.tally
    have hcpu : u'.cpu = u.cpu := hround.session.cpu
    exact ⟨t', u', es, ht', hr', hround.session, hlog, htally ▸ hrec.stopped,
      hcpu ▸ hrec.faulted⟩

/-- A device that logs a write itself and then asks for two interrupts. -/
def loudBell : Bus Unit where
  read _ _ := (0, (), [])
  write _ port v :=
    ((), [.event (.wrotePort port v), .signal (.interrupt 0xFF), .signal (.interrupt 0x00)])

/-- A new processor in front of an undefined opcode and an OUT. -/
def beforeUndefined : Session Unit where
  cpu := ⟨Core.initial { memorySize := 3 }, ⟨#[0x08, 0xD3, 0x00], by decide, by decide⟩, none,
    { memorySize := 3 }⟩
  device := ()

/-- Two instructions, one of them undefined, a request that gives way and an interrupt. -/
theorem log_records_run_undefined :
    ∃ xs t u, Chronicled loudBell (some 2) beforeUndefined xs t ∧
      t.round loudBell (some 2) = (.stopped .instructionLimit, u) ∧
      u.log.toList = [.ranUndefined 0x08 0, .fetched 0 0x08 0 0 0x02 0,
        .fetched 1 0xD3 0 0 0x02 0, .wrotePort 0 0, .replacedInterrupt 0xFF 0x00,
        .tookInterrupt 0x00 3, .stopped .instructionLimit 2 1] ∧
      ∃ t' u' es, Chronicled loudBell.muted (some 2) beforeUndefined xs t' ∧
        t'.round loudBell.muted (some 2) = (.stopped .instructionLimit, u') ∧ Quieter u u' ∧
        u'.log.toList = beforeUndefined.log.toList ++ es ∧
        Recorded (xs ++ t.incidents (some 2)) es (.stopped .instructionLimit) u := by
  have hnop : Chronicled loudBell (some 2) beforeUndefined _ _ := .round .start rfl (.inl rfl)
  have hwrite : Chronicled loudBell (some 2) beforeUndefined _ _ := hnop.round rfl (.inl rfl)
  have hservice : Chronicled loudBell (some 2) beforeUndefined _ _ := hwrite.round rfl (.inl rfl)
  exact ⟨_, _, _, hservice, rfl, rfl,
    (log_records_run loudBell (some 2) beforeUndefined rfl).2 _ _ _ _ hservice rfl⟩

end Session

end Intel8080
