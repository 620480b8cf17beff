/-
  What a script cache answers.

  A cache has a past: texts of scripts have been registered, scripts have been asked for,
  everything has been forgotten, and the files below the root have changed (`CacheEvent`).  A past
  is a list with the latest event first.  A request is answered from one text, and which one that
  is depends on the latest event that settles it (`settled?`): a request that succeeded settles
  the text it was answered from, a registration settles its own text, and where neither has
  happened since everything was forgotten, the text is the one that is in the file now (`text?`).

  So the cache answers as if it kept no scripts at all and parsed this text anew
  (`answer_eq_ok_iff`).  The invariant behind it (`Remembers`) is about one key, and what it is kept
  by are the events that concern this key; so two keys never have to do with each other, even if
  they have the same name in messages (`answer_filter_concerns`).
-/
import Mathlib
import ActorScript.ScriptCache

namespace ActorScript

/-- Something that happens to a cache or to the files of its scripts. -/
inductive CacheEvent
  /-- The text of a script is registered. -/
  | insert (k : ScriptKey) (source : String)
  /-- A script is asked for. -/
  | load (k : ScriptKey)
  /-- Everything is forgotten. -/
  | clear
  /-- Files are written, replaced or removed: this is the disk from now on. -/
  | change (d : Disk)

namespace CacheEvent

/-- The cache and the disk after an event; a request need not succeed. -/
def apply : CacheEvent → ScriptCache × Disk → ScriptCache × Disk
  | insert k source, (c, d) => (c.insertSource k source, d)
  | load k, (c, d) => ((ScriptCache.load d k c).2, d)
  | clear, (c, d) => (c.clear, d)
  | change d, (c, _) => (c, d)

/-- Whether the event may have to do with a script: it is about this script or about no single
    one. -/
def concerns (k : ScriptKey) : CacheEvent → Bool
  | insert k' _ | load k' => k' = k
  | clear | change _ => true

end CacheEvent

namespace ScriptCache

variable (root : String) (disk : Disk)

/-- A new cache and the disk after some events, the latest of which comes first. -/
def after : List CacheEvent → ScriptCache × Disk
  | [] => ({ root }, disk)
  | e :: es => e.apply (after es)

/-- What a request for a script gives after some events. -/
def answer (es : List CacheEvent) (k : ScriptKey) : Except Error Script :=
  (load (after root disk es).2 k (after root disk es).1).1

/-- The text that is in the file of a script after some events. -/
def filed? (es : List CacheEvent) (k : ScriptKey) : Option String :=
  ((after root disk es).2.readText (k.path root)).toOption

/-- **The text of a script that is settled** by some events, the latest of which comes first.
    Nothing is settled by a request that fails, or by one for another script. -/
def settled? (k : ScriptKey) : List CacheEvent → Option String
  | [] => none
  | .load k' :: es =>
    if k' = k ∧ (answer root disk es k).toBool then (settled? k es).or (filed? root disk es k)
    else settled? k es
  | .insert k' source :: es => if k' = k then some source else settled? k es
  | .clear :: _ => none
  | .change _ :: es => settled? k es

/-- **The text that a script is answered from**: the one that is settled, or else the one that is
    in its file now. -/
def text? (es : List CacheEvent) (k : ScriptKey) : Option String :=
  (settled? root disk k es).or (filed? root disk es k)

/-! ## Requests -/

variable {root disk} {c : ScriptCache} {d : Disk} {k : ScriptKey}

/-- Where a script comes from that is not kept: from the registered text or else from the file. -/
theorem read_eq_ok_iff {script : Script} : c.read d k = .ok script ↔
    ∃ text, (k.find? c.sources).or (d.readText (k.path c.root)).toOption = some text ∧
      Script.parse text = .ok script := by
  have hnamed : ∀ (path text : String),
      (Script.parse text).mapError (·.inFile path) = .ok script ↔
        Script.parse text = .ok script := by
    intro path text
    cases Script.parse text with
    | error e => exact ⟨nofun, nofun⟩
    | ok s => rfl
  rw [read]
  cases hsource : k.find? c.sources with
  | some source =>
    simp only [Option.some_or, Option.some.injEq, exists_eq_left']
    exact hnamed _ source
  | none =>
    rw [Option.none_or]
    cases hfile : d.readText (k.path c.root) with
    | error fault => exact ⟨nofun, nofun⟩
    | ok text =>
      simp only [Except.toOption, Option.some.injEq, exists_eq_left']
      exact hnamed _ text

theorem load_of_kept {script : Script} (h : k.find? c.parsed = some script) :
    load d k c = (.ok script, c) := by
  rw [load, h]

theorem load_of_read {script : Script} (h : k.find? c.parsed = none)
    (hread : c.read d k = .ok script) :
    load d k c = (.ok script, { c with parsed := k.put script c.parsed }) := by
  rw [load, h, hread]

theorem load_of_read_error {e : Error} (h : k.find? c.parsed = none)
    (hread : c.read d k = .error e) : load d k c = (.error e, c) := by
  rw [load, h, hread]

/-- **A request that fails** leaves the cache as it is. -/
theorem load_error {e : Error} (h : (load d k c).1 = .error e) : (load d k c).2 = c := by
  cases hfound : k.find? c.parsed with
  | some script => rw [load_of_kept hfound]
  | none =>
    cases hread : c.read d k with
    | error e => rw [load_of_read_error hfound hread]
    | ok script =>
      rw [load_of_read hfound hread] at h
      cases h

theorem root_load : (load d k c).2.root = c.root := by
  rw [load]
  split
  · rfl
  · split
    · rfl
    · rfl

theorem sources_load : (load d k c).2.sources = c.sources := by
  rw [load]
  split
  · rfl
  · split
    · rfl
    · rfl

/-- A request that succeeds leaves the script in the cache. -/
theorem find?_load_self {script : Script} (h : (load d k c).1 = .ok script) :
    k.find? (load d k c).2.parsed = some script := by
  cases hfound : k.find? c.parsed with
  | some kept =>
    rw [load_of_kept hfound] at h ⊢
    cases h
    exact hfound
  | none =>
    cases hread : c.read d k with
    | error e =>
      rw [load_of_read_error hfound hread] at h
      cases h
    | ok s =>
      rw [load_of_read hfound hread] at h ⊢
      cases h
      rw [ScriptKey.find?_put, if_pos rfl]

/-- A request does not change what is kept for another script. -/
theorem find?_load_of_ne {k' : ScriptKey} (hne : k' ≠ k) :
    k.find? (load d k' c).2.parsed = k.find? c.parsed := by
  rw [load]
  split
  · rfl
  · split
    · rfl
    · rw [ScriptKey.find?_put, if_neg hne]

theorem find?_parsed_insertSource (c : ScriptCache) (k' k : ScriptKey) (source : String) :
    k.find? (c.insertSource k' source).parsed = if k' = k then none else k.find? c.parsed :=
  ScriptKey.find?_drop ..

theorem find?_sources_insertSource (c : ScriptCache) (k' k : ScriptKey) (source : String) :
    k.find? (c.insertSource k' source).sources =
      if k' = k then some source else k.find? c.sources :=
  ScriptKey.find?_put ..

/-! ## What is kept for one script -/

/-- For the script with this key, the cache keeps the parse of the text that is settled, or at
    least the text; if none is settled, it keeps nothing. -/
structure Remembers (c : ScriptCache) (k : ScriptKey) (settled : Option String) : Prop where
  parsed : ∀ script, k.find? c.parsed = some script →
    ∃ text, settled = some text ∧ Script.parse text = .ok script
  registered : k.find? c.parsed = none → k.find? c.sources = settled

/-- A script is kept together with the text that it was parsed from. -/
theorem remembers_of_kept {script : Script} {text : String}
    (h : k.find? c.parsed = some script) (hparse : Script.parse text = .ok script) :
    c.Remembers k (some text) := by
  refine ⟨fun s hs => ⟨text, rfl, ?_⟩, fun hnone => nomatch h.symm.trans hnone⟩
  cases h.symm.trans hs
  exact hparse

variable {settled : Option String}

namespace Remembers

/-- It is enough that nothing has changed for this script. -/
theorem congr {c' : ScriptCache} (h : c.Remembers k settled)
    (hparsed : k.find? c'.parsed = k.find? c.parsed)
    (hsources : k.find? c'.sources = k.find? c.sources) : c'.Remembers k settled :=
  ⟨fun s hs => h.parsed s (hparsed ▸ hs), fun hs => hsources.trans (h.registered (hparsed ▸ hs))⟩

/-- **What a request gives**: the parse of the settled text, or else of the text in the file. -/
theorem load_eq_ok_iff (h : c.Remembers k settled) {script : Script} :
    (ScriptCache.load d k c).1 = .ok script ↔
      ∃ text, settled.or (d.readText (k.path c.root)).toOption = some text ∧
        Script.parse text = .ok script := by
  cases hfound : k.find? c.parsed with
  | some kept =>
    -- the text of a kept script is settled, so that it does not matter what is in the file
    obtain ⟨text, rfl, hparse⟩ := h.parsed kept hfound
    rw [load_of_kept hfound]
    simp only [Option.some_or, Option.some.injEq, exists_eq_left', hparse]
  | none =>
    rw [← h.registered hfound, ← read_eq_ok_iff]
    cases hread : c.read d k with
    | error e => rw [load_of_read_error hfound hread]
    | ok s => rw [load_of_read hfound hread]

/-- A request settles the text that it is answered from, if it is answered. -/
theorem load (h : c.Remembers k settled) :
    (ScriptCache.load d k c).2.Remembers k
      (if (ScriptCache.load d k c).1.toBool then
        settled.or (d.readText (k.path c.root)).toOption else settled) := by
  cases hresult : (ScriptCache.load d k c).1 with
  | error e =>
    rw [load_error hresult]
    exact h
  | ok script =>
    obtain ⟨text, htext, hparse⟩ := h.load_eq_ok_iff.mp hresult
    rw [htext]
    exact remembers_of_kept (find?_load_self hresult) hparse

/-- A request for another script settles nothing. -/
theorem load_of_ne (h : c.Remembers k settled) {k' : ScriptKey} (hne : k' ≠ k) :
    (ScriptCache.load d k' c).2.Remembers k settled :=
  h.congr (find?_load_of_ne hne) (congrArg _ sources_load)

theorem insertSource (c : ScriptCache) (k : ScriptKey) (source : String) :
    (c.insertSource k source).Remembers k (some source) := by
  have hparsed : k.find? (c.insertSource k source).parsed = none := by
    rw [find?_parsed_insertSource, if_pos rfl]
  refine ⟨fun s hs => (nomatch hparsed.symm.trans hs), fun _ => ?_⟩
  rw [find?_sources_insertSource, if_pos rfl]

theorem insertSource_of_ne (h : c.Remembers k settled) {k' : ScriptKey} (hne : k' ≠ k)
    (source : String) : (c.insertSource k' source).Remembers k settled := by
  refine h.congr ?_ ?_
  · rw [find?_parsed_insertSource, if_neg hne]
  · rw [find?_sources_insertSource, if_neg hne]

end Remembers

/-! ## After any events -/

theorem root_after (es : List CacheEvent) : (after root disk es).1.root = root := by
  induction es with
  | nil => rfl
  | cons e es ih =>
    cases e with
    | load k => exact root_load.trans ih
    | insert k source => exact ih
    | clear => exact ih
    | change d => exact ih

/-- **The cache keeps what is settled**, for every script and whatever has happened. -/
theorem remembers_after (es : List CacheEvent) (k : ScriptKey) :
    (after root disk es).1.Remembers k (settled? root disk k es) := by
  -- the induction goes back from the latest event, which is about this script or another one
  induction es with
  | nil => exact ⟨fun _ hs => (nomatch hs), fun _ => rfl⟩
  | cons e es ih =>
    cases e with
    | load k' =>
      rw [settled?]
      by_cases hk : k' = k
      · subst hk
        have hload := ih.load (d := (after root disk es).2)
        rw [root_after] at hload
        simp only [true_and]
        exact hload
      · rw [if_neg (fun h => hk h.1)]
        exact ih.load_of_ne hk
    | insert k' source =>
      rw [settled?]
      by_cases hk : k' = k
      · subst hk
        rw [if_pos rfl]
        exact .insertSource _ _ _
      · rw [if_neg hk]
        exact ih.insertSource_of_ne hk source
    | clear => exact ⟨fun _ hs => (nomatch hs), fun _ => rfl⟩
    | change d => exact ih

/-- **The cache gives** the parse of the text that is settled, or else in the file. -/
theorem answer_eq_ok_iff {es : List CacheEvent} {script : Script} :
    answer root disk es k = .ok script ↔
      ∃ text, text? root disk es k = some text ∧ Script.parse text = .ok script := by
  have h : answer root disk es k = .ok script ↔ _ := (remembers_after es k).load_eq_ok_iff
  rw [root_after] at h
  exact h

/-- A request that has failed might as well not have been made. -/
theorem after_append_load {es : List CacheEvent} {e : Error}
    (h : answer root disk es k = .error e) (later : List CacheEvent) :
    after root disk (later ++ .load k :: es) = after root disk (later ++ es) := by
  induction later with
  | nil => exact Prod.ext (load_error h) rfl
  | cons e' later ih => exact congrArg e'.apply ih

/-! ## What happens to other scripts -/

/-- Two caches with their disks make no difference for a script. -/
structure Alike (k : ScriptKey) (x y : ScriptCache × Disk) : Prop where
  root : x.1.root = y.1.root
  disk : x.2 = y.2
  parsed : k.find? x.1.parsed = k.find? y.1.parsed
  sources : k.find? x.1.sources = k.find? y.1.sources

namespace Alike

variable {x y : ScriptCache × Disk}

theorem read (h : Alike k x y) : x.1.read x.2 k = y.1.read y.2 k := by
  rw [ScriptCache.read, ScriptCache.read, h.sources, h.root, h.disk]

theorem load (h : Alike k x y) :
    (ScriptCache.load x.2 k x.1).1 = (ScriptCache.load y.2 k y.1).1 := by
  cases hfound : k.find? y.1.parsed with
  | some script => rw [load_of_kept hfound, load_of_kept (h.parsed.trans hfound)]
  | none =>
    have hfound' := h.parsed.trans hfound
    cases hread : y.1.read y.2 k with
    | error e =>
      rw [load_of_read_error hfound hread, load_of_read_error hfound' (h.read.trans hread)]
    | ok script => rw [load_of_read hfound hread, load_of_read hfound' (h.read.trans hread)]

/-- What does not concern the script makes no difference for it. -/
theorem apply_right (h : Alike k x y) {e : CacheEvent} (he : e.concerns k = false) :
    Alike k x (e.apply y) := by
  cases e with
  | load k' =>
    have hne : k' ≠ k := of_decide_eq_false he
    exact ⟨h.root.trans root_load.symm, h.disk, h.parsed.trans (find?_load_of_ne hne).symm,
      h.sources.trans (congrArg _ sources_load.symm)⟩
  | insert k' source =>
    have hne : k' ≠ k := of_decide_eq_false he
    refine ⟨h.root, h.disk, h.parsed.trans ?_, h.sources.trans ?_⟩
    · rw [CacheEvent.apply, find?_parsed_insertSource, if_neg hne]
    · rw [CacheEvent.apply, find?_sources_insertSource, if_neg hne]
  | clear => cases he
  | change d => cases he

/-- What concerns the script makes the same difference on both sides. -/
theorem apply (h : Alike k x y) {e : CacheEvent} (he : e.concerns k = true) :
    Alike k (e.apply x) (e.apply y) := by
  cases e with
  | load k' =>
    obtain rfl : k' = k := of_decide_eq_true he
    refine ⟨root_load.trans (h.root.trans root_load.symm), h.disk, ?_,
      (congrArg _ sources_load).trans (h.sources.trans (congrArg _ sources_load.symm))⟩
    show k'.find? (ScriptCache.load x.2 k' x.1).2.parsed =
      k'.find? (ScriptCache.load y.2 k' y.1).2.parsed
    cases hresult : (ScriptCache.load y.2 k' y.1).1 with
    | error e =>
      rw [load_error hresult, load_error (h.load.trans hresult)]
      exact h.parsed
    | ok script => rw [find?_load_self hresult, find?_load_self (h.load.trans hresult)]
  | insert k' source =>
    obtain rfl : k' = k := of_decide_eq_true he
    refine ⟨h.root, h.disk, ?_, ?_⟩
    · rw [CacheEvent.apply, CacheEvent.apply, find?_parsed_insertSource, find?_parsed_insertSource,
        if_pos rfl, if_pos rfl]
    · rw [CacheEvent.apply, CacheEvent.apply, find?_sources_insertSource,
        find?_sources_insertSource, if_pos rfl, if_pos rfl]
  | clear => exact ⟨h.root, h.disk, rfl, rfl⟩
  | change d => exact ⟨h.root, rfl, h.parsed, h.sources⟩

end Alike

/-- **Other scripts** make no difference for what is given for this one. -/
theorem answer_filter_concerns (es : List CacheEvent) (k : ScriptKey) :
    answer root disk (es.filter (·.concerns k)) k = answer root disk es k := by
  suffices hall : Alike k (after root disk (es.filter (·.concerns k))) (after root disk es) from
    hall.load
  induction es with
  | nil => exact ⟨rfl, rfl, rfl, rfl⟩
  | cons e es ih =>
    cases he : e.concerns k with
    | true =>
      rw [List.filter_cons_of_pos he]
      exact ih.apply he
    | false =>
      rw [List.filter_cons_of_neg (by simp [he])]
      exact ih.apply_right he

/-- **A cache is a coherent memory of parsing.**  Whatever has happened, a request for a script is
    answered with the parse of the text that the latest events have settled, or else of the text
    in its file now, and with nothing else; one that fails might as well not have been made; and
    nothing that has happened to other scripts makes a difference. -/
theorem coherent (root : String) (disk : Disk) (es : List CacheEvent) (k : ScriptKey) :
    (∀ script, answer root disk es k = .ok script ↔
      ∃ text, text? root disk es k = some text ∧ Script.parse text = .ok script) ∧
    (∀ e, answer root disk es k = .error e → ∀ later k',
      answer root disk (later ++ .load k :: es) k' = answer root disk (later ++ es) k') ∧
    answer root disk (es.filter (·.concerns k)) k = answer root disk es k := by
  refine ⟨fun script => answer_eq_ok_iff, fun e he later k' => ?_, answer_filter_concerns es k⟩
  rw [answer, answer, after_append_load he later]

/-! Two scripts that have the same name in messages, and one that does not parse. -/

/-- The door of a town's inn. -/
def innDoor : ScriptKey := ⟨"town", "inn.door"⟩

/-- A door on another map. -/
def farDoor : ScriptKey := ⟨"town.inn", "door"⟩

/-- Something without a script. -/
def gate : ScriptKey := ⟨"town", "gate"⟩

/-- All three got a text, and then both doors were asked for. -/
def doorEvents : List CacheEvent :=
  [.load innDoor, .load farDoor, .insert farDoor "state Far(true) \x7b \x7d",
    .insert innDoor "state Inn(true) \x7b \x7d", .insert gate "state"]

theorem coherent_doors :
    innDoor.text = farDoor.text ∧
    (∃ script, Script.parse "state Inn(true) \x7b \x7d" = .ok script ∧
      answer "scripts" {} doorEvents innDoor = .ok script) ∧
    (∃ e, answer "scripts" {} doorEvents gate = .error e) ∧
    answer "scripts" {} (.insert gate "" :: .load gate :: doorEvents) gate =
      answer "scripts" {} (.insert gate "" :: doorEvents) gate := by
  obtain ⟨hgiven, -, -⟩ := coherent "scripts" {} doorEvents innDoor
  obtain ⟨-, hfailed, hgate⟩ := coherent "scripts" {} doorEvents gate
  have hlost : (answer "scripts" {} doorEvents gate).toBool = false := by
    -- the doors do not concern the gate, and the rest can be computed
    have hfilter : doorEvents.filter (·.concerns gate) = [.insert gate "state"] := rfl
    rw [← hgate, hfilter]
    cbv
  have htext : text? "scripts" {} doorEvents innDoor = some "state Inn(true) \x7b \x7d" := by
    have hne : farDoor ≠ innDoor := by decide
    simp only [text?, doorEvents, settled?, hne, false_and, if_false, if_true, Option.some_or,
      ite_self]
  have hparse : (Script.parse "state Inn(true) \x7b \x7d").toBool = true := by cbv
  refine ⟨by decide, ?_, ?_⟩
  · cases hresult : Script.parse "state Inn(true) \x7b \x7d" with
    | error e =>
      rw [hresult] at hparse
      cases hparse
    | ok script => exact ⟨script, rfl, (hgiven script).mpr ⟨_, htext, hresult⟩⟩
  · cases hresult : answer "scripts" {} doorEvents gate with
    | error e => exact ⟨⟨e, rfl⟩, hfailed e hresult [.insert gate ""] gate⟩
    | ok script =>
      rw [hresult] at hlost
      cases hlost

end ScriptCache

end ActorScript
