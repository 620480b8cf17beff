/-
  Handlers that come to wait.

  A handler waits at a call whose function has replied that it shall (`Handler.WaitsFor`).  At the
  end of the operation in which that happens it has one timer, and this has not counted anything
  yet (`armed_turns`).  So the milliseconds of a frame do not count in a wait that begins in the
  frame, in whichever of its two rounds: a handler that is cued to begin the frame and comes to
  wait had no timer before, so it is not among those that are resumed, and the timers that have
  counted the frame are those of others.
-/
import ActorScript.Proofs.Dozing

namespace ActorScript

variable {σ : Type}

/-! ## Handlers that wait at a call -/

/-- Only a call makes a handler wait, and only if that is what the function replies. -/
theorem Statement.exists_call_of_wait {ctx : Context σ} {st : Statement} {s s' : σ} {d : UInt64}
    (hp : st.perform ctx s = (.ok (.wait d), s')) :
    ∃ f args l, st = .call f args l ∧ ∃ vs s₁, (ctx.callFunction f vs s₁).1 = .ok (.wait d) := by
  cases st with
  | ifElse condition thenBlock elseBlock l =>
    rw [perform, Action.bind_apply] at hp
    rcases hv : condition.eval ctx s with ⟨err | v, s₁⟩
    · simp only [hv] at hp
      cases hp
    · simp only [hv] at hp
      cases hp
  | assign target value l =>
    rw [perform, Action.bind_apply] at hp
    rcases hv : value.eval ctx s with ⟨err | v, s₁⟩
    · simp only [hv] at hp
      cases hp
    · simp only [hv, Action.bind_apply] at hp
      rcases hw : ctx.write target v s₁ with ⟨err | ⟨⟨⟩⟩, s₂⟩
      · simp only [hw] at hp
        cases hp
      · simp only [hw] at hp
        cases hp
  | call f args l =>
    rw [perform, Action.bind_apply] at hp
    rcases hv : Expr.evalList ctx args s with ⟨err | vs, s₁⟩
    · simp only [hv] at hp
      cases hp
    · simp only [hv, Action.bind_apply] at hp
      rcases hc : ctx.callFunction f vs s₁ with ⟨err | reply, s₂⟩
      · simp only [hc] at hp
        cases hp
      · simp only [hc] at hp
        rcases reply with _ | ms | _
        · cases hp
        · cases hp
          exact ⟨f, args, l, rfl, vs, s₁, congrArg Prod.fst hc⟩
        · cases hp

namespace Handler

/-- The handler is suspended at a call to a function that has replied to wait `d` milliseconds. -/
structure WaitsFor (script : Script) (callFunction : String → List Value → Action σ Reply)
    (d : UInt64) (h : Handler) : Prop where
  suspended : h.suspended = true
  budget : 0 < h.budget
  call : ∃ p rest f args l, h.stack = p :: rest ∧
    script.statement? p.block p.index = some (.call f args l) ∧
      ∃ vs s, (callFunction f vs s).1 = .ok (.wait d)

variable {script : Script} {ctx : Context σ} {d : UInt64}

theorem waitsFor_execute (script : Script) (ctx : Context σ) (h : Handler) (s : σ)
    (hr : (execute script ctx h s).1 = .ok (.waiting d)) :
    (execute script ctx h s).2.1.WaitsFor script ctx.callFunction d := by
  fun_induction execute script ctx h s with
  | case1 => cases hr
  | case2 h s p rest hs hp ih => exact ih hr
  | case3 => cases hr
  | case4 => cases hr
  | case5 h s p rest hs st hp hb s' hv ih => exact ih hr
  | case6 h s p rest hs st hp hb b s' hv ih => exact ih hr
  | case7 h s p rest hs st hp hb ms s' hv =>
    cases hr
    obtain ⟨f, args, l, rfl, hreply⟩ := st.exists_call_of_wait hv
    exact ⟨rfl, by simp only [budget_count]; omega, p, rest, f, args, l, hs, hp, hreply⟩
  | case8 => cases hr

theorem waitsFor_conclude (choose : Action σ Nat) (current : Option Nat)
    (x : Except Error Outcome × Handler × σ)
    (hx : x.1 = .ok (.waiting d) → x.2.1.WaitsFor script ctx.callFunction d)
    (hr : (conclude script ctx choose current x).1 = .ok (.waiting d)) :
    (conclude script ctx choose current x).2.1.WaitsFor script ctx.callFunction d := by
  revert hx hr
  refine conclude_induct script ctx choose current
    (motive := fun x r => (x.1 = .ok (.waiting d) → x.2.1.WaitsFor script ctx.callFunction d) →
      r.1 = .ok (.waiting d) → r.2.1.WaitsFor script ctx.callFunction d)
    ?failed ?settled ?waiting ?declined ?leaving ?staying x
  case failed =>
    intro err h s hx hr
    cases hr
  case settled =>
    intro o h s ho hx hr
    cases hr
  case waiting =>
    intro ms h s hx hr
    cases hr
    exact hx rfl
  case declined =>
    intro h s err s' hc hx hr
    cases hr
  case leaving =>
    intro h s i s' hc hne hx hr
    cases hr
  case staying =>
    intro h s i s' r hc hi ih hx hr
    refine ih (fun hw => ?_) hr
    rcases proceed_idle_or_execute script ctx h s' with hp | hp
    · rw [hp] at hw
      cases hw
    · rw [hp] at hw ⊢
      exact waitsFor_execute script ctx h s' hw

end Handler

namespace Machine

variable {host : Host σ} {m : Machine} {c : Cue} {e f : Event} {h : Handler} {g : Nat}

/-- **A turn that ends with a wait** leaves the handler at the call that has asked for it. -/
theorem waitsFor_turn {d : UInt64} {h' : Handler} {s : σ} {x : Locals × σ}
    (ht : m.turn host c e h s = (.ok (.waiting d), h', x)) :
    h'.WaitsFor m.script host.callFunction d := by
  have hstart : (h.obey m.script (m.contextFor host e) (m.locals, s) c).1 = .ok (.waiting d) →
      (h.obey m.script (m.contextFor host e) (m.locals, s) c).2.1.WaitsFor m.script
        (m.contextFor host e).callFunction d := by
    intro hr
    rcases Handler.obey_idle_or_execute m.script (m.contextFor host e) c h (m.locals, s) with
      ⟨h₂, ho⟩ | ⟨h₁, ho⟩
    · rw [ho] at hr
      cases hr
    · rw [ho] at hr ⊢
      exact Handler.waitsFor_execute m.script (m.contextFor host e) h₁ _ hr
  have hend := Handler.waitsFor_conclude (choose m.script m.identity host) m.current _ hstart
  rw [turn, Handler.settle_eq] at ht
  rw [ht] at hend
  -- the context asks the host
  obtain ⟨hsus, hb, p, rest, f, args, l, hs, hp, vs, y, hreply⟩ := hend rfl
  exact ⟨hsus, hb, p, rest, f, args, l, hs, hp, vs, y.2, hreply⟩

/-! ## The timer of a wait -/

/-- If the turn has ended with a wait, and the machine is still in the state, the handler is as
    the turn has left it and has the timer of that wait, which has not counted anything. -/
structure Armed (host : Host σ) (m : Machine) (t : Turn σ) : Prop where
  le : t.machine.generation ≤ m.generation
  dozes : ∀ {d h l s}, t.Ends host (.ok (.waiting d), h, l, s) →
    m.generation = t.machine.generation → Dozes t.event h [⟨t.event, d, 0⟩] m

/-- What comes behind leaves the handler alone as long as the machine stays in the state. -/
theorem Armed.later {m' : Machine} {t : Turn σ} (ha : Armed host m t)
    (hle : m.generation ≤ m'.generation)
    (hstay : ∀ {d h}, m'.generation = m.generation → Dozes t.event h [⟨t.event, d, 0⟩] m →
      Dozes t.event h [⟨t.event, d, 0⟩] m') : Armed host m' t where
  le := Nat.le_trans ha.le hle
  dozes {d h l s} hends hg := by
    have hle' := ha.le
    have hsame : m.generation = t.machine.generation := by omega
    exact hstay (hg.trans hsame.symm) (ha.dozes hends hsame)

theorem armed_of_not_waiting {n : Nat} {s : σ} {h' : Handler} {m' : Machine} {x : Locals × σ}
    {rest : Except Error Rest} (hh : m.handlers.get? e = some h)
    (ht : m.turn host c e h s = (rest, h', x)) (hrest : ∀ d, rest ≠ .ok (.waiting d))
    (hle : m.generation ≤ m'.generation) : Armed host m' ⟨n, c, e, m, s⟩ where
  le := hle
  dozes {d h₂ l s₂} hends _ := by
    obtain ⟨h₀, hh₀, ht₀⟩ := hends
    cases hh.symm.trans hh₀
    have heq : (rest, h', x) = (.ok (.waiting d), h₂, l, s₂) := ht.symm.trans ht₀
    exact absurd (congrArg Prod.fst heq) (hrest d)

/-- **A turn that ends with a wait** leaves the handler with the timer of that wait and no other:
    whatever has woken it has used up the timer it may have had. -/
theorem armed_of_waiting {n : Nat} {d : UInt64} {s s' : σ} {h' : Handler} {l : Locals}
    {pending : List Event} (hs : Sound (due c [e] ++ pending) m)
    (hh : m.handlers.get? e = some h) (ht : m.turn host c e h s = (.ok (.waiting d), h', l, s')) :
    Armed host ((m.record e h' l).arm e d) ⟨n, c, e, m, s⟩ where
  le := Nat.le_refl _
  dozes {d₂ h₂ l₂ s₂} hends _ := by
    obtain ⟨h₀, hh₀, ht₀⟩ := hends
    cases hh.symm.trans hh₀
    cases ht.symm.trans ht₀
    obtain ⟨-, p, hp⟩ := hs.coherent e h hh
    obtain ⟨-, ⟨-, hsettled, -⟩ | ⟨hwakes, q, hq, hfits⟩⟩ := turn_cases host hp ht
    · cases hsettled
    · obtain rfl : q = .timer := hfits
      refine ⟨hq, ?_, ?_⟩
      · show (m.record e h' l).handlers.get? e = some h'
        rw [get?_record, if_pos rfl]
      · have hnone : m.timers.filter (·.event = e) = [] := by
          refine List.filter_eq_nil_iff.mpr fun τ hτ hevent => ?_
          have hmem : e ∈ pending ++ m.timers.map (·.event) :=
            List.mem_append_right _ (List.mem_map.mpr ⟨τ, hτ, of_decide_eq_true hevent⟩)
          exact absurd (hs.count_of_wakes hh hp hwakes) (Nat.ne_of_gt (List.count_pos_iff.mpr hmem))
        show (m.timers ++ [(⟨e, d, 0⟩ : Timer)]).filter (·.event = e) = _
        rw [List.filter_append, hnone, List.nil_append]
        exact List.filter_cons_of_pos (decide_eq_true rfl)

/-- **Cues and switches**: every turn that ends with a wait leaves its handler with its timer. -/
theorem armed_enter_cue (host : Host σ) (n : Nat) :
    (∀ i m s, ∀ pending, Sound pending m → ∀ t ∈ entryTurns host n i (m, s),
      Armed host (enter host n i (m, s)).2.1 t) ∧
    ∀ c e m s, ∀ pending, Sound (due c [e] ++ pending) m → ∀ t ∈ cueTurns host n c e (m, s),
      Armed host (Machine.cue host (enter host n) c e (m, s)).2.1 t := by
  refine turns_induct host
    (fun n i m s r ts => ∀ pending, Sound pending m → ∀ t ∈ ts, Armed host r.2.1 t)
    (fun n c e m s r ts => ∀ pending, Sound (due c [e] ++ pending) m → ∀ t ∈ ts,
      Armed host r.2.1 t)
    ?overflow ?dangling ?once ?twice ?absent ?failed ?settled ?waiting ?leaving n
  case overflow =>
    intro i m s pending hs t ht
    cases ht
  case dangling =>
    intro n i m s hst pending hs t ht
    cases ht
  case once =>
    intro n i m s st r m' s' ts hst hone h₁ hloop pending hs t ht
    exact (hloop [] (hs.inside hst) t ht).later (Nat.le_refl _) fun _ hd => hd.congr rfl rfl
  case twice =>
    intro n i m s st m₁ s₁ r m' s' ts₁ ts₂ hst hg h₁ hloop h₂ hentered pending hs t ht
    have hs₁ : Sound [] m₁ := by
      have hgo := ((sound_enter_cue host n).2 .run .loop (m.inside i st) s []
        (hs.inside hst)).1.sound
      rwa [h₁] at hgo
    rcases List.mem_append.mp ht with ht | ht
    · -- the second handler leaves the first one alone
      have hle := ((sameRun_enter_cue host n).2 .run .enterState m₁ s₁).2
      have hcue : ∀ {h ts}, m'.generation = m₁.generation → Dozes t.event h ts m₁ →
          Dozes t.event h ts m' := by
        intro h ts hsame hd
        have hdoze := hd.cue (f := .enterState) host n .run s₁ (.inr nofun)
        rw [h₂, Handler.idled, ite_self] at hdoze
        exact hdoze hsame
      rw [h₂] at hle
      exact (hloop [] (hs.inside hst) t ht).later hle fun hsame hd =>
        (hcue hsame hd).congr rfl rfl
    · exact (hentered [] hs₁ t ht).later (Nat.le_refl _) fun _ hd => hd.congr rfl rfl
  case absent =>
    intro n c e m s hn pending hs t ht
    cases ht
  case failed =>
    intro n c e m s h err h' l s' hh ht pending hs t hmem
    obtain rfl := List.mem_singleton.mp hmem
    exact armed_of_not_waiting hh ht (by simp) (Nat.le_refl _)
  case settled =>
    intro n c e m s h h' l s' hh ht pending hs t hmem
    obtain rfl := List.mem_singleton.mp hmem
    exact armed_of_not_waiting hh ht (by simp) (Nat.le_refl _)
  case waiting =>
    intro n c e m s h ms h' l s' hh ht pending hs t hmem
    obtain rfl := List.mem_singleton.mp hmem
    exact armed_of_waiting hs hh ht
  case leaving =>
    intro n c e m s h i h' l s' hh ht hent pending hs t hmem
    rcases List.mem_cons.mp hmem with rfl | hmem
    · have hle := ((sameRun_enter_cue host n).2 c e m s).2
      rw [cue_of_some host hh, ht] at hle
      exact armed_of_not_waiting hh ht (by simp) hle
    · obtain ⟨hrecord, -, -⟩ := hs.turn hh ht
      exact hent pending (hrecord (by simp)) t hmem

theorem armed_cue (c : Cue) (pending : List Event) (hs : Sound (due c [e] ++ pending) m) (s : σ) :
    ∀ t ∈ cueTurns host (m.options.maxDepth - m.switchDepth) c e (m, s),
      Armed host (Machine.cue host (switchTo host) c e (m, s)).2.1 t := by
  rw [cue_switchTo]
  exact (armed_enter_cue host _).2 c e m s pending hs

/-- As long as the machine stays in its state, the only turn of a cue is that of the handler. -/
theorem eq_of_mem_cueTurns {n : Nat} {s : σ} {t : Turn σ} (ht : t ∈ cueTurns host n c e (m, s))
    (hle : t.machine.generation ≤ m.generation) : t = ⟨n, c, e, m, s⟩ := by
  cases hh : m.handlers.get? e with
  | none =>
    rw [cueTurns_of_none host hh] at ht
    cases ht
  | some h =>
    obtain ⟨ts, hcons, hlater⟩ := cueTurns_eq_cons host n c s hh
    rw [hcons] at ht
    rcases List.mem_cons.mp ht with rfl | ht
    · rfl
    · exact absurd (hlater t ht) (Nat.not_lt_of_le hle)

/-- Whoever is stopped after a failure is not the handler that has come to wait. -/
theorem armed_cueOnce (host : Host σ) {pending : List Event} (hs : Sound (due c [e] ++ pending) m)
    (s : σ) (hg : m.generation = g) :
    ∀ t ∈ cueTurns host (m.options.maxDepth - m.switchDepth) c e (m, s),
      Armed host (cueOnce host c g e (m, s)).1 t := by
  intro t ht
  have ha := armed_cue c pending hs s t ht
  rw [cueOnce]
  rcases hr : Machine.cue host (switchTo host) c e (m, s) with ⟨err | ⟨⟨⟩⟩, m', s'⟩
  · rw [hr] at ha
    refine ⟨by rw [generation_abort]; exact ha.le, fun {d h l s₂} hends hsame => ?_⟩
    rw [generation_abort] at hsame
    by_cases hstay : m'.generation = g
    · -- a cue that ends with a wait is a success
      obtain rfl := eq_of_mem_cueTurns ht (by omega)
      obtain ⟨h₀, hh₀, ht₀⟩ := hends
      have hh : m.handlers.get? e = some h₀ := hh₀
      have hturn : m.turn host c e h₀ s = (.ok (.waiting d), h, l, s₂) := ht₀
      rw [cue_of_some host hh, hturn] at hr
      cases hr
    · simp only [abort_of_left hstay]
      exact ha.dozes hends hsame
  · rw [hr] at ha
    exact ha

theorem generation_le_cueAll (host : Host σ) (c : Cue) (es : List Event) (first : Option Error)
    (s : σ) (hg : m.generation = g) : g ≤ (cueAll host c g es first (m, s)).2.1.generation :=
  (leads_round host (Q := fun _ => True) (fun _ _ _ => trivial) c es first s hg).le

/-- **A round of cues**, to every handler at most one. -/
theorem armed_round (host : Host σ) (c : Cue) (pending : List Event) (es : List Event)
    (first : Option Error) (s : σ) (hnodup : es.Nodup) (hg : m.generation = g)
    (hs : Sound (due c es ++ pending) m) :
    ∀ t ∈ roundTurns host c g es (m, s), Armed host (cueAll host c g es first (m, s)).2.1 t := by
  induction es generalizing first m s with
  | nil =>
    intro t ht
    cases ht
  | cons e es ih =>
    obtain ⟨first', hcons⟩ := cueAll_cons host c e es first s hg
    obtain ⟨hnotin, hnodup'⟩ := List.nodup_cons.mp hnodup
    rw [due_cons, List.append_assoc] at hs
    have honce := armed_cueOnce host hs s hg
    have hgo := sound_cueOnce host s hs hg
    rw [hcons, roundTurns, if_pos hg]
    rcases hx : cueOnce host c g e (m, s) with ⟨m', s'⟩
    rw [hx] at honce hgo
    intro t ht
    by_cases hsame : m'.generation = g
    · have hs' : Sound (due c es ++ pending) m' := by
        rcases hgo with ⟨-, hs'⟩ | ⟨hlt, -⟩
        · exact hs'
        · have hlt' : m.generation < m'.generation := hlt
          omega
      rcases List.mem_append.mp ht with ht | ht
      · have ha := honce t ht
        have hle := ha.le
        have hback : m'.generation ≤ m.generation := Nat.le_of_eq (hsame.trans hg.symm)
        obtain rfl := eq_of_mem_cueTurns ht (Nat.le_trans hle hback)
        have hle' := generation_le_cueAll host c es first' s' hsame
        refine ha.later (hsame.symm ▸ hle') fun hend hd => ?_
        have hround := hd.round host c es first' s' (.inl hnotin) hsame (hend.trans hsame)
        rwa [if_neg hnotin] at hround
      · exact ih first' s' hnodup' hsame hs' t ht
    · rw [roundTurns_of_left host c es s' hsame, List.append_nil] at ht
      rw [cueAll_of_left host c es first' s' hsame]
      exact honce t ht

/-! ## Operations -/

theorem armed_trigger (host : Host σ) (hs : Sound [] m) (e : Event) (s : σ) :
    ∀ t ∈ triggerTurns host e (m, s), Armed host (trigger host e (m, s)).2.1 t := by
  rw [triggerTurns, trigger]
  split
  · exact armed_cue .run [] hs s
  · intro t ht
    cases ht

theorem armed_select (host : Host σ) (hs : Sound [] m) (s : σ) :
    ∀ t ∈ selectTurns host (m, s), Armed host (select host (m, s)).2.1 t := by
  rw [selectTurns, select]
  rcases hc : choose m.script m.identity host (m.locals, s) with ⟨err | i, l, s'⟩
  · intro t ht
    cases ht
  · simp only
    split
    · intro t ht
      cases ht
    · exact (armed_enter_cue host _).1 i { m with locals := l } s' [] (hs.choose hc)

theorem armed_activate (host : Host σ) (hs : Sound [] m) (s : σ) :
    ∀ t ∈ activateTurns host (m, s), Armed host (activate host (m, s)).2.1 t := by
  rw [activateTurns, activate_eq]
  rcases seedSaved m.identity host m.script.vars s with ⟨err | ⟨⟨⟩⟩, s₁⟩
  · intro t ht
    cases ht
  · have hselect := armed_select host hs s₁
    have hs₂ := hs.select host s₁
    simp only
    rcases hr : select host (m, s₁) with ⟨err | ⟨⟨⟩⟩, m₂, s₂⟩
    · rw [hr] at hselect
      rw [List.append_nil]
      exact hselect
    · rw [hr] at hselect hs₂
      intro t ht
      rcases List.mem_append.mp ht with ht | ht
      · refine (hselect t ht).later (generation_le_trigger host .spawn m₂ s₂) fun hsame hd => ?_
        exact hd.trigger host .spawn s₂ hsame
      · exact armed_trigger host hs₂ .spawn s₂ t ht

/-- A handler that has come to wait while the frame began had no timer before, so nothing that has
    counted the frame becomes its timer. -/
theorem Dozes.resumed {d dt : UInt64} {m₁ : Machine} (hd : Dozes e h [⟨e, d, 0⟩] m₁)
    (hs₁ : Sound (m.timers.map (·.event)) m₁) (first : Option Error) (s₁ : σ)
    (hsame : m₁.generation = g)
    (hend : (cueAll host .resume g (m.fired dt) first (m.midFrame m₁ dt, s₁)).2.1.generation = g) :
    Dozes e h [⟨e, d, 0⟩]
      (cueAll host .resume g (m.fired dt) first (m.midFrame m₁ dt, s₁)).2.1 := by
  have hnotin : e ∉ m.timers.map (·.event) := by
    have hcount := hs₁.timers e
    have hnew : 0 < (m₁.timers.map (·.event)).count e := by
      refine List.count_pos_iff.mpr (List.mem_map.mpr ⟨⟨e, d, 0⟩, ?_, rfl⟩)
      have hmem : (⟨e, d, 0⟩ : Timer) ∈ m₁.timers.filter (·.event = e) := by
        rw [hd.timers]
        exact List.mem_singleton_self _
      exact (List.mem_filter.mp hmem).1
    rw [List.count_append] at hcount
    refine List.count_eq_zero.mp ?_
    split at hcount <;> omega
  have hnone : m.timers.filter (·.event = e) = [] :=
    List.filter_eq_nil_iff.mpr fun τ hτ hevent =>
      hnotin (List.mem_map.mpr ⟨τ, hτ, of_decide_eq_true hevent⟩)
  have hmid := hd.midFrame m dt
  rw [filter_unfired, hnone] at hmid
  have hnotfired : e ∉ m.fired dt := fun hmem => hnotin ((fired_sublist m dt).subset hmem)
  have hround := hmid.round host .resume (m.fired dt) first s₁ (.inl hnotfired) hsame hend
  rwa [if_neg hnotfired] at hround

theorem armed_newFrame (host : Host σ) (hs : Sound [] m) (dt : UInt64) (s : σ) :
    ∀ t ∈ frameTurns host dt (m, s), Armed host (newFrame host dt (m, s)).2.1 t := by
  by_cases hact : m.isActive = true
  · have hbegin := armed_round host .newFrame _ m.handlers.events none s m.handlers.nodup_events rfl
      hs.bare
    have hgo := sound_cueAll host .newFrame m.handlers.events none { m with timers := [] } s
      rfl hs.bare
    rcases h₁ : cueAll host .newFrame m.generation m.handlers.events none
      ({ m with timers := [] }, s) with ⟨first, m₁, s₁⟩
    simp only [h₁] at hbegin hgo
    rw [newFrame_active host dt m s hact h₁]
    simp only [frameTurns, hact, if_true, h₁]
    intro t ht
    by_cases hsame : m₁.generation = m.generation
    · have hs₁ : Sound (m.timers.map (·.event)) m₁ := by
        rcases hgo with ⟨-, hs₁⟩ | ⟨hlt, -⟩
        · exact hs₁
        · exact absurd hsame (Nat.ne_of_gt hlt)
      rw [if_pos hsame] at ht ⊢
      rcases List.mem_append.mp ht with ht | ht
      · have hle := generation_le_cueAll host .resume (m.fired dt) first s₁
          (m := m.midFrame m₁ dt) hsame
        refine (hbegin t ht).later (Nat.le_trans (Nat.le_of_eq hsame) hle) fun hend hd => ?_
        exact hd.resumed hs₁ first s₁ hsame (hend.trans hsame)
      · exact armed_round (m := m.midFrame m₁ dt) host .resume [] (m.fired dt) first s₁
          (hs.nodup_fired dt) hsame (hs₁.midFrame dt) t ht
    · rw [if_neg hsame] at ht ⊢
      rw [List.append_nil] at ht
      exact hbegin t ht
  · rw [newFrame_inactive host dt m s hact]
    simp only [frameTurns, hact]
    intro t ht
    cases ht

/-- **Every turn that ends with a wait** leaves its handler with a timer that has not counted
    anything, also if it is a turn of a frame. -/
theorem armed_turns (hs : Sound [] m) (c : Call) : ∀ t ∈ c.turns m, Armed c.host (m.next c) t := by
  obtain ⟨host, s, op⟩ := c
  cases op with
  | activate => exact armed_activate host hs s
  | trigger e => exact armed_trigger host hs e s
  | newFrame dt => exact armed_newFrame host hs dt s
  | select => exact armed_select host hs s
  | despawn =>
    intro t ht
    cases ht

end Machine

end ActorScript
