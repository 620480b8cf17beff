/-
  The scripts of a session, each read and parsed once.

  A script is asked for by the name of its map and its own name.  It is parsed from the text that
  was registered for it or else from a file below the root of the cache; the parse is kept until
  the text is replaced or the cache is cleared.  A script that cannot be read is not kept, so the
  next request tries again.
-/
import ActorScript.Action
import ActorScript.Disk
import ActorScript.Parser.Declaration

namespace ActorScript

/-- What a script is asked for by. -/
structure ScriptKey where
  mapName : String
  scriptName : String
deriving DecidableEq, Repr, Inhabited

/-- The file name extension of scripts. -/
def Script.fileExtension : String := "cantalscript"

namespace ScriptKey

/-- The name of a script in messages if it has no file. -/
def text (k : ScriptKey) : String :=
  k.mapName ++ "." ++ k.scriptName ++ "." ++ Script.fileExtension

/-- The file of a script below a root directory. -/
def path (k : ScriptKey) (root : String) : String :=
  Path.join (Path.join root k.mapName) (k.scriptName ++ "." ++ Script.fileExtension)

/-- What some entries have for a key. -/
def find? {α : Type} (k : ScriptKey) (entries : List (ScriptKey × α)) : Option α :=
  (entries.find? (·.1 = k)).map (·.2)

/-- Some entries without those for a key. -/
def drop {α : Type} (k : ScriptKey) (entries : List (ScriptKey × α)) : List (ScriptKey × α) :=
  entries.filter (·.1 ≠ k)

/-- Some entries with `a` as the only one for a key. -/
def put {α : Type} (k : ScriptKey) (a : α) (entries : List (ScriptKey × α)) :
    List (ScriptKey × α) := (k, a) :: k.drop entries

theorem find?_drop {α : Type} (k k' : ScriptKey) (l : List (ScriptKey × α)) :
    k'.find? (k.drop l) = if k = k' then none else k'.find? l := by
  induction l with
  | nil => simp [drop, find?]
  | cons p rest ih =>
    simp only [drop, find?] at ih ⊢
    by_cases h : p.1 = k <;> by_cases h' : p.1 = k'
    · subst h; subst h'; simp
    · subst h; simpa [h'] using ih
    · have : ¬ k = k' := fun e => h (h'.trans e.symm)
      simp [h', this, Ne.symm this]
    · simpa [h, h'] using ih

theorem find?_put {α : Type} (k k' : ScriptKey) (a : α) (l : List (ScriptKey × α)) :
    k'.find? (k.put a l) = if k = k' then some a else k'.find? l := by
  by_cases h : k = k'
  · simp [put, find?, h]
  · have hd := find?_drop k k' l
    simp only [h, if_false, find?] at hd ⊢
    simpa [put, h] using hd

end ScriptKey

/-- The scripts that have been parsed, and the texts that replace files. -/
structure ScriptCache where
  /-- The directory with the files of scripts, one directory in it for each map. -/
  root : String
  parsed : List (ScriptKey × Script) := []
  sources : List (ScriptKey × String) := []
deriving DecidableEq, Repr, Inhabited

namespace ScriptCache

/-- Registers the text of a script and forgets what was parsed for it. -/
def insertSource (c : ScriptCache) (k : ScriptKey) (source : String) : ScriptCache :=
  { c with parsed := k.drop c.parsed, sources := k.put source c.sources }

/-- Parses a script from its registered text or its file. -/
def read (c : ScriptCache) (d : Disk) (k : ScriptKey) : Except Error Script :=
  match k.find? c.sources with
  | some source => (Script.parse source).mapError (·.inFile k.text)
  | none =>
    match d.readText (k.path c.root) with
    | .error fault => .error (.scriptRead (k.path c.root) fault.message)
    | .ok source => (Script.parse source).mapError (·.inFile (k.path c.root))

/-- Gives a script: the one that is kept, or else a new one, which is kept from then on. -/
def load (d : Disk) (k : ScriptKey) : Action ScriptCache Script := fun c =>
  match k.find? c.parsed with
  | some script => (.ok script, c)
  | none =>
    match c.read d k with
    | .error e => (.error e, c)
    | .ok script => (.ok script, { c with parsed := k.put script c.parsed })

/-- Whether a script is kept. -/
def contains (c : ScriptCache) (k : ScriptKey) : Bool := (k.find? c.parsed).isSome

/-- The number of scripts that are kept. -/
def size (c : ScriptCache) : Nat := c.parsed.length

/-- Forgets all scripts and all registered texts. -/
def clear (c : ScriptCache) : ScriptCache := { root := c.root }

end ScriptCache

end ActorScript
