/-
  Waits are exact.

  In the calls behind the one in which a handler has come to wait, the handler dozes and its timer
  adds up the milliseconds of the frames (`Dozes.after`).  The count is capped, but that can be
  noticed only beyond every duration (`Timer.Counts`).  In the first frame in which the sum reaches
  the duration, the handler gets one cue to resume and goes on behind the call (`Dozes.due`), unless
  another handler has led to another state by then.  `waits_exactly` puts this together.

  Nothing of it depends on what other handlers do meanwhile, as long as the machine stays in its
  state.
-/
import ActorScript.Proofs.Waiting

namespace ActorScript

variable {σ : Type}

/-! ## Counting milliseconds -/

/-- The timer has counted `n` milliseconds, or as many of them as it can. -/
def Timer.Counts (τ : Timer) (n : Nat) : Prop := τ.elapsed.toNat = min n (UInt64.size - 1)

theorem Timer.Counts.advance {τ : Timer} {n : Nat} (hc : τ.Counts n) (dt : UInt64) :
    (τ.advance dt).Counts (n + dt.toNat) := by
  rw [Counts] at hc ⊢
  rw [Timer.advance, toNat_addCapped, hc]
  omega

/-- No duration is beyond what a timer can count. -/
theorem Timer.Counts.hasFired_iff {τ : Timer} {n : Nat} (hc : τ.Counts n) :
    τ.hasFired = true ↔ τ.duration.toNat ≤ n := by
  have hlt := τ.duration.toNat_lt
  rw [Counts, UInt64.size] at hc
  rw [hasFired, decide_eq_true_iff, UInt64.le_iff_toNat_le, hc]
  omega

/-- The milliseconds that pass in some calls. -/
def elapsed (cs : List Call) : Nat := (cs.map fun c => c.frame?.elim 0 UInt64.toNat).sum

/-- In none of the frames among the calls the milliseconds reach the duration. -/
def NotDue (d : UInt64) (cs : List Call) : Prop :=
  (∃ c ∈ cs, c.frame?.isSome) → elapsed cs < d.toNat

theorem elapsed_concat (cs : List Call) (c : Call) :
    elapsed (cs ++ [c]) = elapsed cs + c.frame?.elim 0 UInt64.toNat := by
  rw [elapsed, List.map_append, List.sum_append, List.map_singleton, List.sum_singleton, ← elapsed]

theorem NotDue.of_concat {d : UInt64} {cs : List Call} {c : Call} (h : NotDue d (cs ++ [c])) :
    NotDue d cs := by
  rintro ⟨c', hc', hframe⟩
  have hlt := h ⟨c', List.mem_append_left _ hc', hframe⟩
  rw [elapsed_concat] at hlt
  omega

namespace Machine

variable {m : Machine} {e f : Event} {h : Handler} {ts : List Timer} {τ : Timer} {d : UInt64}

/-! ## Dozing through a history -/

theorem generation_le_next (m : Machine) (c : Call) : m.generation ≤ (m.next c).generation :=
  (leads_turns m c).le

theorem generation_le_after (m : Machine) (cs : List Call) :
    m.generation ≤ (m.after cs).generation :=
  after_induct (P := fun m' => m.generation ≤ m'.generation)
    (fun m' c hle => Nat.le_trans hle (generation_le_next m' c)) (Nat.le_refl _) cs

theorem sound_after (hs : Sound [] m) (cs : List Call) : Sound [] (m.after cs) :=
  after_induct (P := fun m' => Sound [] m') (fun _ c hs' => hs'.next c) hs cs

/-- **A handler dozes** through all calls that leave the machine in its state and in whose frames
    its duration is not reached, and its timer counts their milliseconds. -/
theorem Dozes.after (hs : Sound [] m) (hd : Dozes e h [⟨e, d, 0⟩] m) (later : List Call)
    (hg : (m.after later).generation = m.generation) (hnot : NotDue d later) :
    ∃ h' τ, h.StandsAs h' ∧ τ.duration = d ∧ τ.Counts (elapsed later) ∧
      Dozes e h' [τ] (m.after later) := by
  induction later using List.reverseRecOn with
  | nil => exact ⟨h, ⟨e, d, 0⟩, .refl h, rfl, rfl, hd⟩
  | append_singleton later c ih =>
    rw [after_concat] at hg ⊢
    have hle := generation_le_after m later
    have hle' := generation_le_next (m.after later) c
    obtain ⟨h₁, τ, hstands, hduration, hcounts, hd₁⟩ := ih (by omega) hnot.of_concat
    have hrest : ∀ dt, c.frame? = some dt → (τ.advance dt).hasFired = false := by
      intro dt hdt
      rw [← Bool.not_eq_true, (hcounts.advance dt).hasFired_iff]
      have hlt := hnot ⟨c, by simp, by rw [hdt, Option.isSome_some]⟩
      rw [elapsed_concat, hdt, Option.elim_some] at hlt
      show ¬ τ.duration.toNat ≤ _
      rw [hduration]
      omega
    obtain ⟨h₂, hstands', hd₂⟩ := hd₁.next (sound_after hs later) c hrest (by omega)
    refine ⟨h₂, _, hstands.trans hstands', ?_, ?_, hd₂⟩
    · cases hframe : c.frame? with
      | none => exact hduration
      | some dt => exact hduration
    · rw [elapsed_concat]
      cases hframe : c.frame? with
      | none => exact hcounts
      | some dt => exact hcounts.advance dt

/-! ## The turns of a handler in its state -/

/-- Of some turns those of the handler for an event in the state of a generation. -/
def own (g : Nat) (e : Event) (ts : List (Turn σ)) : List (Turn σ) :=
  ts.filter fun t => t.machine.generation = g ∧ t.event = e

variable {g : Nat} {s : σ} {c : Cue}

theorem own_append (ts ts' : List (Turn σ)) : own g e (ts ++ ts') = own g e ts ++ own g e ts' :=
  List.filter_append ..

theorem own_cons (t : Turn σ) (ts : List (Turn σ)) : own g e (t :: ts) =
    if t.machine.generation = g ∧ t.event = e then t :: own g e ts else own g e ts := by
  rw [own, List.filter_cons]
  simp only [decide_eq_true_eq]
  rfl

theorem own_cueTurns_of_ne (host : Host σ) (n : Nat) (c : Cue) (s : σ) (hne : f ≠ e)
    (hg : m.generation = g) : own g e (cueTurns host n c f (m, s)) = [] := by
  refine List.filter_eq_nil_iff.mpr fun t ht hown => ?_
  obtain ⟨hgen, hevent⟩ := of_decide_eq_true hown
  obtain rfl := eq_of_mem_cueTurns ht (by omega)
  exact hne hevent

/-- A cue gives its handler one turn in the state. -/
theorem own_cueTurns_self (host : Host σ) (n : Nat) (c : Cue) (s : σ)
    (hh : m.handlers.get? e = some h) (hg : m.generation = g) :
    own g e (cueTurns host n c e (m, s)) = [⟨n, c, e, m, s⟩] := by
  obtain ⟨ts, hcons, hlater⟩ := cueTurns_eq_cons host n c s hh
  have hnone : own g e ts = [] := by
    refine List.filter_eq_nil_iff.mpr fun t ht hown => ?_
    have hlt := hlater t ht
    have hgen := (of_decide_eq_true hown).1
    omega
  rw [hcons, own_cons, if_pos ⟨hg, rfl⟩, hnone]

/-- A trigger begins with the turn of the handler. -/
theorem mem_triggerTurns {host : Host σ} {s : σ}
    {r : Except Error Rest × Handler × Locals × σ} (hact : m.isActive = true)
    (hends : (outermost .run e (m, s)).Ends host r) :
    outermost .run e (m, s) ∈ triggerTurns host e (m, s) := by
  obtain ⟨h, hh, -⟩ := hends
  obtain ⟨ts, hcons, -⟩ := cueTurns_eq_cons host (m.options.maxDepth - m.switchDepth) .run s hh
  rw [triggerTurns, if_pos hact]
  exact hcons.symm ▸ List.mem_cons_self

theorem own_round_of_not_mem (host : Host σ) (c : Cue) (es : List Event) (x : Machine × σ)
    (he : e ∉ es) : own g e (roundTurns host c g es x) = [] := by
  induction es generalizing x with
  | nil => rfl
  | cons f fs ih =>
    obtain ⟨m, s⟩ := x
    obtain ⟨hne, hnot⟩ := not_or.mp (mt List.mem_cons.mpr he)
    by_cases hg : m.generation = g
    · rw [roundTurns, if_pos hg, own_append, own_cueTurns_of_ne host _ c s (Ne.symm hne) hg,
        List.nil_append]
      exact ih _ hnot
    · rw [roundTurns_of_left host c (f :: fs) s hg]
      rfl

/-- In a round of cues that are not to resume, a handler that dozes executes nothing. -/
theorem Dozes.own_round_idle (hd : Dozes e h ts m) (host : Host σ) (c : Cue) (es : List Event)
    (s : σ) (hc : c ≠ .resume) (hg : m.generation = g) :
    ∀ t ∈ own g e (roundTurns host c g es (m, s)), t.cue = c ∧ Turn.steps host t = [] := by
  induction es generalizing m s h with
  | nil =>
    intro t ht
    cases ht
  | cons f fs ih =>
    rw [roundTurns, if_pos hg, own_append]
    have honce := hd.cueOnce (f := f) (g := g) host c s (.inr hc)
    rcases hx : Machine.cueOnce host c g f (m, s) with ⟨m', s'⟩
    rw [hx] at honce
    intro t ht
    rcases List.mem_append.mp ht with ht | ht
    · by_cases hfe : f = e
      · subst hfe
        rw [own_cueTurns_self host _ c s hd.handler hg] at ht
        obtain rfl := List.mem_singleton.mp ht
        exact ⟨rfl, (hd.cue_own host s hc).2⟩
      · rw [own_cueTurns_of_ne host _ c s hfe hg] at ht
        cases ht
    · by_cases hsame : m'.generation = g
      · exact ih (honce (hsame.trans hg.symm)) s' hsame t ht
      · rw [roundTurns_of_left host c fs s' hsame] at ht
        cases ht

/-- **In a round of cues**, a handler that is among those cued gets one turn, unless the machine has
    left the state by then; what the cues to the others keep holds in this turn. -/
theorem own_round {P : Machine → Prop} (host : Host σ) (c : Cue)
    (hhandler : ∀ m, P m → (m.handlers.get? e).isSome)
    (hothers : ∀ m f s, P m → f ≠ e → m.generation = g →
      (cueOnce host c g f (m, s)).1.generation = g → P (cueOnce host c g f (m, s)).1)
    (es : List Event) (first : Option Error) (s : σ) (hm : P m) (he : e ∈ es) (hnodup : es.Nodup)
    (hg : m.generation = g) :
    (∃ n m' s', own g e (roundTurns host c g es (m, s)) = [⟨n, c, e, m', s'⟩] ∧
      m.SameRun m' ∧ P m') ∨
      (own g e (roundTurns host c g es (m, s)) = [] ∧
        (cueAll host c g es first (m, s)).2.1.generation ≠ g) := by
  induction es generalizing first m s with
  | nil => cases he
  | cons f fs ih =>
    obtain ⟨hnotin, hnodup'⟩ := List.nodup_cons.mp hnodup
    obtain ⟨first', hcons⟩ := cueAll_cons host c f fs first s hg
    rw [hcons, roundTurns, if_pos hg, own_append]
    have hrun := sameRun_cueOnce host c f s hg
    by_cases hfe : f = e
    · subst hfe
      obtain ⟨h, hh⟩ := Option.isSome_iff_exists.mp (hhandler m hm)
      rw [own_cueTurns_self host _ c s hh hg]
      rw [own_round_of_not_mem host c fs _ hnotin, List.append_nil]
      exact .inl ⟨_, m, s, rfl, .refl m, hm⟩
    · rw [own_cueTurns_of_ne host _ c s hfe hg, List.nil_append]
      have honce := hothers m f s hm hfe hg
      rcases hx : Machine.cueOnce host c g f (m, s) with ⟨m', s'⟩
      rw [hx] at honce hrun
      by_cases hsame : m'.generation = g
      · have hmem : e ∈ fs := (List.mem_cons.mp he).resolve_left (Ne.symm hfe)
        rcases ih first' s' (honce hsame) hmem hnodup' hsame with
          ⟨n, m'', s'', hown, hrun', hm''⟩ | hmissed
        · exact .inl ⟨n, m'', s'', hown, hrun.trans hrun', hm''⟩
        · exact .inr hmissed
      · rw [roundTurns_of_left host c fs s' hsame, cueAll_of_left host c fs first' s' hsame]
        exact .inr ⟨rfl, hsame⟩

/-- **In the round of cues to resume**, a handler that dozes and is among those cued is as before
    when its turn comes. -/
theorem Dozes.own_round_resume (hd : Dozes e h ts m) (host : Host σ) (es : List Event)
    (first : Option Error) (s : σ) (he : e ∈ es) (hnodup : es.Nodup) (hg : m.generation = g) :
    (∃ n m' s', own g e (roundTurns host .resume g es (m, s)) = [⟨n, .resume, e, m', s'⟩] ∧
      m.SameRun m' ∧ Dozes e h ts m') ∨
      (own g e (roundTurns host .resume g es (m, s)) = [] ∧
        (cueAll host .resume g es first (m, s)).2.1.generation ≠ g) := by
  refine own_round (P := Dozes e h ts) host .resume ?_ ?_ es first s hd he hnodup hg
  · intro m hd
    rw [hd.handler, Option.isSome_some]
  · intro m f s hd hfe hm hsame
    have honce := hd.cueOnce (f := f) (g := g) host .resume s (.inl hfe) (hsame.trans hm.symm)
    rwa [if_neg hfe] at honce

/-- The statements of a handler in its state are those of its turns there. -/
theorem filter_steps (host : Host σ) (g : Nat) (e : Event) (ts : List (Turn σ)) :
    (ts.flatMap (Turn.steps host)).filter (fun step => step.generation = g ∧ step.event = e) =
      (own g e ts).flatMap (Turn.steps host) := by
  induction ts with
  | nil => rfl
  | cons t ts ih =>
    rw [List.flatMap_cons, List.filter_append, ih]
    by_cases hown : t.machine.generation = g ∧ t.event = e
    · rw [own_cons, if_pos hown, List.flatMap_cons]
      congr 1
      refine List.filter_eq_self.mpr fun step hstep => ?_
      obtain ⟨hgen, -, hevent⟩ := marks_of_mem_steps hstep
      exact decide_eq_true ⟨hgen.trans hown.1, hevent.trans hown.2⟩
    · rw [own_cons, if_neg hown]
      have hnone : (Turn.steps host t).filter (fun step => step.generation = g ∧ step.event = e) =
          [] := by
        refine List.filter_eq_nil_iff.mpr fun step hstep hmark => hown ?_
        obtain ⟨hgen, -, hevent⟩ := marks_of_mem_steps hstep
        obtain ⟨hg, he⟩ := of_decide_eq_true hmark
        exact ⟨hgen.symm.trans hg, hevent.symm.trans he⟩
      rw [hnone, List.nil_append]

end Machine

open Machine

/-- The statements that a call executes for an event in the state in which it has begun. -/
def Call.stepsOf (c : Call) (m : Machine) (e : Event) : List Step :=
  (c.steps m).filter fun step => step.generation = m.generation ∧ step.event = e

/-- The turns in which a call resumes the handler for an event in the state in which it has
    begun. -/
def Call.resumptions (c : Call) (m : Machine) (e : Event) : List (Turn c.σ) :=
  (own m.generation e (c.turns m)).filter (·.cue = .resume)

/-- **A call resumes the handler `h`**: in the turn `t`, and in no other.  The handler still stands
    as `h` then.  What it executes begins with the statement behind the one at which `h` waits, and
    it executes nothing else in the call. -/
structure Call.Resumes (c : Call) (m : Machine) (e : Event) (h : Handler) (t : Turn c.σ) :
    Prop where
  once : c.resumptions m e = [t]
  stands : ∃ h', t.machine.handlers.get? e = some h' ∧ h.StandsAs h'
  first : (Turn.steps c.host t).head?.map (·.position) = upcoming? m.script h.advance.stack
  steps : c.stepsOf m e = Turn.steps c.host t

theorem Call.stepsOf_eq (c : Call) (m : Machine) (e : Event) :
    c.stepsOf m e = (own m.generation e (c.turns m)).flatMap (Turn.steps c.host) := by
  rw [Call.stepsOf, steps_eq_flatMap_turns, filter_steps]

namespace Machine

variable {m : Machine} {e : Event} {h h' : Handler} {ts : List Timer} {τ : Timer}

/-! ## The frame in which a wait is over -/

/-- A handler that dozes with its whole budget goes on behind the call when it is resumed. -/
theorem Dozes.first (hd : Dozes e h' ts m) (host : Host σ) (n : Nat) (s : σ)
    (hstands : h.StandsAs h') (hused : h'.usedBudget = 0) (hbudget : 0 < h.budget) :
    (Turn.steps host ⟨n, .resume, e, m, s⟩).head?.map (·.position) =
      upcoming? m.script h.advance.stack := by
  have hsus : h'.suspended = true := (Handler.suspended_iff hd.phase).mpr rfl
  have hw : h'.woken m.script .resume = some { h' with suspended := false }.advance := by
    rw [Handler.woken, if_pos hsus]
  rw [Handler.StandsAs] at hstands
  have hleft : { h' with suspended := false }.advance.usedBudget <
      { h' with suspended := false }.advance.budget := by
    rw [Handler.usedBudget_advance, Handler.budget_advance, hused, hstands]
    exact hbudget
  rw [head?_steps_of_woken hd.handler hw hleft]
  congr 1
  exact Handler.stack_advance_congr (by rw [hstands])

/-- **The frame in which its timer runs out** resumes a handler that dozes, once and behind the call
    at which it waits, unless the machine leaves the state before that. -/
theorem Dozes.due (hd : Dozes e h' [τ] m) (hs : Sound [] m) (hstands : h.StandsAs h')
    (hbudget : 0 < h.budget) (c : Call) {dt : UInt64} (hframe : c.frame? = some dt)
    (hfired : (τ.advance dt).hasFired = true) :
    (∃ t, c.Resumes m e h t) ∨
      (c.resumptions m e = [] ∧ c.stepsOf m e = [] ∧ m.generation < (m.next c).generation) := by
  obtain ⟨host, s, op⟩ := c
  obtain rfl : op = .newFrame dt := by
    cases op with
    | newFrame dt' =>
      cases hframe
      rfl
    | _ => cases hframe
  have hact := hs.isActive hd.handler
  have hidle := (hd.retimed []).own_round_idle host .newFrame m.handlers.events s nofun rfl
  have hrun := sameRun_cueAll host .newFrame m.generation m.handlers.events none
    { m with timers := [] } s
  have hle := generation_le_cueAll host .newFrame m.handlers.events none s
    (m := { m with timers := [] }) (g := m.generation) rfl
  rcases h₁ : cueAll host .newFrame m.generation m.handlers.events none
    ({ m with timers := [] }, s) with ⟨first, m₁, s₁⟩
  rw [h₁] at hrun hle
  -- what the cues to begin the frame add to the handler's turns counts for nothing
  have hturns : ∀ ts, (frameTurns host dt (m, s) = roundTurns host .newFrame m.generation
      m.handlers.events ({ m with timers := [] }, s) ++ ts) →
      Call.resumptions ⟨host, s, .newFrame dt⟩ m e =
          (own m.generation e ts).filter (·.cue = .resume) ∧
        Call.stepsOf ⟨host, s, .newFrame dt⟩ m e =
          (own m.generation e ts).flatMap (Turn.steps host) := by
    intro ts hts
    have hcall : Call.turns ⟨host, s, .newFrame dt⟩ m = frameTurns host dt (m, s) := rfl
    rw [Call.resumptions, Call.stepsOf_eq, hcall, hts, own_append, List.filter_append,
      List.flatMap_append]
    refine ⟨?_, ?_⟩
    · rw [List.filter_eq_nil_iff.mpr, List.nil_append]
      intro t ht hcue
      cases (hidle t ht).1.symm.trans (of_decide_eq_true hcue)
    · rw [List.flatMap_eq_nil_iff.mpr fun t ht => (hidle t ht).2, List.nil_append]
  have hnext : m.next ⟨host, s, .newFrame dt⟩ = (Machine.newFrame host dt (m, s)).2.1 := rfl
  rw [hnext, newFrame_active host dt m s hact h₁]
  by_cases hsame : m₁.generation = m.generation
  · have hts : frameTurns host dt (m, s) = roundTurns host .newFrame m.generation
        m.handlers.events ({ m with timers := [] }, s) ++
        roundTurns host .resume m.generation (m.fired dt) (m.midFrame m₁ dt, s₁) := by
      simp only [frameTurns, hact, if_true, h₁, if_pos hsame]
    obtain ⟨hresumptions, hsteps⟩ := hturns _ hts
    have hmem : e ∈ m.fired dt := by
      rw [mem_fired_iff, hd.timers]
      exact ⟨τ, List.mem_singleton_self τ, hfired⟩
    have hmid := (hd.begun host s h₁ hsame).midFrame m dt
    rw [if_pos hsame]
    rcases hmid.own_round_resume host (m.fired dt) first s₁ hmem (hs.nodup_fired dt) hsame with
      ⟨n, m', s', hown, hrun', hd'⟩ | ⟨hown, hleft⟩
    · left
      rw [hown] at hresumptions hsteps
      have hstands' := hstands.trans (h'.standsAs_idled .newFrame)
      have hscript : m'.script = m.script := hrun'.script.trans hrun.script
      refine ⟨⟨n, .resume, e, m', s'⟩, hresumptions, ⟨_, hd'.handler, hstands'⟩, ?_, ?_⟩
      · rw [← hscript]
        exact hd'.first host n s' hstands' rfl hbudget
      · rw [hsteps, List.flatMap_singleton]
    · right
      rw [hown] at hresumptions hsteps
      have hle' := generation_le_cueAll host .resume (m.fired dt) first s₁
        (m := m.midFrame m₁ dt) hsame
      exact ⟨hresumptions, hsteps, Nat.lt_of_le_of_ne hle' (Ne.symm hleft)⟩
  · have hts : frameTurns host dt (m, s) = roundTurns host .newFrame m.generation
        m.handlers.events ({ m with timers := [] }, s) ++ [] := by
      simp only [frameTurns, hact, if_true, h₁, if_neg hsame]
    obtain ⟨hresumptions, hsteps⟩ := hturns _ hts
    right
    rw [if_neg hsame]
    exact ⟨hresumptions, hsteps, Nat.lt_of_le_of_ne hle (Ne.symm hsame)⟩

/-- Whatever happens to a machine, its turns run the same script. -/
theorem lasts_script (host : Host σ) (script : Script) :
    Lasts host fun m => m.script = script where
  turn hm _ _ := hm
  timers _ hm := hm
  locals _ hm := hm
  inside hm _ := hm
  outside hm := hm
  abort {m} e g hm := (sameRun_abort m e g).script.trans hm

/-- **Waits are exact**, and what other handlers do has no influence on them.  After any history,
    let a turn of a call `c` end with a wait of `d` milliseconds, and let the calls `later` leave
    the machine in the state of that turn and not reach the duration.  Then the handler, which is
    suspended at a call that asks for this wait, is still where it was.  And in a further frame
    that reaches the duration it is resumed, once and behind the call; or that frame switches the
    state before, and the handler executes nothing more. -/
theorem waits_exactly {script : Script} {identity : Identity} {options : MachineOptions}
    {m : Machine} (hm : create script identity options = .ok m) (before : List Call) (c : Call)
    {t : Turn c.σ} (ht : t ∈ c.turns (m.after before)) {d : UInt64} {h : Handler} {l : Locals}
    {s : c.σ} (hends : t.Ends c.host (.ok (.waiting d), h, l, s)) (later : List Call)
    (hstay : (m.after (before ++ c :: later)).generation = t.machine.generation)
    (hnot : NotDue d later) :
    h.WaitsFor script c.host.callFunction d ∧
      (∃ h', (m.after (before ++ c :: later)).handlers.get? t.event = some h' ∧ h.StandsAs h') ∧
      ∀ f dt, f.frame? = some dt → d.toNat ≤ elapsed later + dt.toNat →
        (∃ t', f.Resumes (m.after (before ++ c :: later)) t.event h t') ∨
          (f.resumptions (m.after (before ++ c :: later)) t.event = [] ∧
            f.stepsOf (m.after (before ++ c :: later)) t.event = [] ∧
            (m.after (before ++ c :: later)).generation <
              ((m.after (before ++ c :: later)).next f).generation) := by
  have hsplit : m.after (before ++ c :: later) = ((m.after before).next c).after later :=
    after_append m before (c :: later)
  rw [hsplit] at hstay ⊢
  obtain ⟨hsound, h0⟩ := sound_of_create hm
  have hs := sound_after hsound before
  -- the handler waits at the call
  have hscript : t.machine.script = script := by
    have hrun := sameRun_after h0 before
    have hstart : (m.after before).script = script := by
      rw [hrun.script, create_eq_ok hm]
    exact ((lasts_script c.host script).perform c.operation c.state hstart).1 t ht
  have hwaits : h.WaitsFor script c.host.callFunction d := by
    obtain ⟨h₀, -, hturn⟩ := hends
    rw [← hscript]
    exact waitsFor_turn hturn
  -- it has its timer after the call, and dozes through the later ones
  have harmed := armed_turns hs c t ht
  have hle := harmed.le
  have hle' := generation_le_after ((m.after before).next c) later
  have hd := harmed.dozes hends (by omega)
  obtain ⟨h', τ, hstands, hduration, hcounts, hd'⟩ :=
    hd.after (hs.next c) later (by omega) hnot
  refine ⟨hwaits, ⟨h', hd'.handler, hstands⟩, fun f dt hframe hreached => ?_⟩
  have hfired : (τ.advance dt).hasFired = true := by
    rw [(hcounts.advance dt).hasFired_iff]
    show τ.duration.toNat ≤ _
    rwa [hduration]
  exact hd'.due (sound_after (hs.next c) later) hstands hwaits.budget f hframe hfired

/-- A script whose handler waits and then prints. -/
def nap : Script where
  states := [
    { name := "S", condition := .literal (.bool true), handlers := { actionPressed := some 0 },
      location := ⟨1, 1⟩ }]
  blocks := [
    [.call "wait" [.literal (.int 50)] ⟨2, 3⟩,
      .call "print" [.literal (.string "awake")] ⟨3, 3⟩]]

/-- The machine for it before anything is done with it. -/
def rested : Machine :=
  { script := nap, identity := ⟨"town", some "Bob"⟩, options := {}, locals := .initial nap }

/-- An operation, with nothing stored anywhere. -/
def afresh (op : Operation) : Call :=
  ⟨Recording.recordingHost [], { parameters := .empty, saved := .empty }, op⟩

/-- The handler is told to run again while it waits, and 49 of its 50 milliseconds pass. -/
def almost : List Call :=
  [afresh (.newFrame 20), afresh (.trigger .actionPressed), afresh (.newFrame 29)]

/-- The first turn of the handler ends with the wait. -/
theorem wait_nap : ∃ h l s, Turn.Ends (Recording.recordingHost [])
    (outermost .run .actionPressed (rested.after [afresh .activate],
      { parameters := .empty, saved := .empty })) (.ok (.waiting 50), h, l, s) := by
  have hh : (rested.after [afresh .activate]).handlers.get? .actionPressed =
      some { event := .actionPressed, entry := 0, budget := 100 } := by
    cbv
  refine ⟨_, _, _, _, hh, Prod.ext ?_ rfl⟩
  cbv

theorem resumes_nap : ∃ h t, (afresh (.newFrame 1)).Resumes
    (rested.after ([afresh .activate] ++ afresh (.trigger .actionPressed) :: almost))
      .actionPressed h t := by
  have hm : create nap ⟨"town", some "Bob"⟩ {} = .ok rested := rfl
  obtain ⟨h, l, s, hends⟩ := wait_nap
  have hactive : (rested.after [afresh .activate]).isActive = true := by cbv
  have hturn : outermost .run .actionPressed (rested.after [afresh .activate],
      { parameters := .empty, saved := .empty }) ∈
        (afresh (.trigger .actionPressed)).turns (rested.after [afresh .activate]) :=
    mem_triggerTurns hactive hends
  obtain ⟨-, -, hdue⟩ := waits_exactly hm [afresh .activate] (afresh (.trigger .actionPressed))
    hturn hends almost (by cbv) (fun _ => by decide)
  rcases hdue (afresh (.newFrame 1)) 1 rfl (by decide) with ⟨t, ht⟩ | ⟨-, -, hlt⟩
  · exact ⟨h, t, ht⟩
  · have hsame : ((rested.after ([afresh .activate] ++ afresh (.trigger .actionPressed) ::
        almost)).next (afresh (.newFrame 1))).generation = 1 := by
      cbv
    have hone : (rested.after ([afresh .activate] ++ afresh (.trigger .actionPressed) ::
        almost)).generation = 1 := by
      cbv
    omega

end Machine

end ActorScript
