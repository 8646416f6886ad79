import ImportLint.Glob.Pattern
import ImportLint.Specifier
import ImportLint.Violation

/-!
Policies.  A policy names the files it governs by one glob and the imports it allows by a list of
globs.  Entries are compiled in the order of their declaration, and the first failure is reported.
-/

namespace ImportLint

/-- A policy as it is written. -/
structure PolicyEntry where
  target : String
  restrictions : List String
  deriving DecidableEq, Repr

/-- An import as it stands in a file. -/
structure ImportRef where
  /-- The specifier as written. -/
  specifier : String
  /-- The file that the specifier is relative to. -/
  source : String
  line : Nat
  column : Nat
  deriving DecidableEq, Repr

/-- The path that an import stands for. -/
def ImportRef.resolved (ref : ImportRef) : String :=
  Specifier.resolve ref.source ref.specifier

/-- Why a list of entries does not compile. -/
inductive PolicyError where
  /-- A target or a restriction is no glob. -/
  | invalidGlob (cause : Glob.Error)
  /-- The entry at this place allows nothing. -/
  | emptyRestrictions (index : Nat) (target : String)
  deriving DecidableEq, Repr

/-- The wording of a failure. -/
def PolicyError.message : PolicyError → String
  | .invalidGlob cause => "invalid glob pattern '" ++ cause.pattern ++ "': " ++ cause.message
  | .emptyRestrictions index target =>
    "policies[" ++ toString index ++ "] (target '" ++ target ++ "'): restrictions must not be empty"

/-- The wording of a failure, followed by that of its cause. -/
def PolicyError.chain : PolicyError → List String
  | .invalidGlob cause => [PolicyError.message (.invalidGlob cause), cause.message]
  | .emptyRestrictions index target => [PolicyError.message (.emptyRestrictions index target)]

/-- A compiled policy. -/
structure Policy where
  entry : PolicyEntry
  target : Glob
  restrictions : List Glob

/-- The outcome for one import. -/
inductive Verdict where
  | permitted
  /-- No restriction matched; carries all of them as written. -/
  | denied (restrictions : List String)
  deriving DecidableEq, Repr

/-- Compiles a glob of a policy, in which `*` and `?` stop at a slash. -/
def compileGlob (pattern : String) : Except PolicyError Glob :=
  match Glob.compile .component pattern with
  | .ok glob => .ok glob
  | .error cause => .error (.invalidGlob cause)

/-- Compiles globs in order, up to the first failure. -/
def compileGlobs : List String → Except PolicyError (List Glob)
  | [] => .ok []
  | pattern :: rest =>
    match compileGlob pattern with
    | .error cause => .error cause
    | .ok glob =>
      match compileGlobs rest with
      | .error cause => .error cause
      | .ok globs => .ok (glob :: globs)

namespace Policy

/-- Compiles the entry at place `index`. -/
def compile (index : Nat) (entry : PolicyEntry) : Except PolicyError Policy :=
  if entry.restrictions = [] then .error (.emptyRestrictions index entry.target)
  else
    match compileGlob entry.target with
    | .error cause => .error cause
    | .ok target =>
      match compileGlobs entry.restrictions with
      | .error cause => .error cause
      | .ok restrictions => .ok ⟨entry, target, restrictions⟩

/-- Whether the policy governs a file. -/
def governs (policy : Policy) (file : String) : Bool :=
  policy.target.isMatch file

/-- Whether a resolved path is allowed: some restriction matches it. -/
def permits (policy : Policy) (path : String) : Bool :=
  policy.restrictions.any (·.isMatch path)

/-- Judges one import. -/
def evaluate (policy : Policy) (ref : ImportRef) : Verdict :=
  if policy.permits ref.resolved then .permitted else .denied policy.entry.restrictions

/-- What is reported about one import of `file`, if anything. -/
def finding? (policy : Policy) (file : String) (ref : ImportRef) : Option Violation :=
  match policy.evaluate ref with
  | .permitted => none
  | .denied restrictions =>
    some (.badImport ⟨file, ref.line, ref.column⟩ restrictions)

end Policy

/-- Compiled policies in the order of their declaration.  The first whose target matches a file
governs it. -/
structure PolicySet where
  policies : List Policy

/-- The outcome of checking one file. -/
structure FileCheck where
  violations : List Violation
  /-- The imports that were looked at, in the order in which they were taken. -/
  taken : List ImportRef
  /-- The imports that were not looked at. -/
  unread : List ImportRef
  deriving DecidableEq, Repr

/-- Takes imports one by one and judges each; `found` and `taken` are what came before. -/
def Policy.read (policy : Policy) (file : String) (found : List Violation)
    (taken : List ImportRef) : List ImportRef → FileCheck
  | [] => ⟨found, taken, []⟩
  | ref :: rest =>
    policy.read file (found ++ (policy.finding? file ref).toList) (taken ++ [ref]) rest

namespace PolicySet

/-- Compiles the entries from place `index` on. -/
def compileFrom (index : Nat) : List PolicyEntry → Except PolicyError (List Policy)
  | [] => .ok []
  | entry :: rest =>
    match Policy.compile index entry with
    | .error cause => .error cause
    | .ok policy =>
      match compileFrom (index + 1) rest with
      | .error cause => .error cause
      | .ok policies => .ok (policy :: policies)

/-- Compiles entries in order, up to the first failure. -/
def compile (entries : List PolicyEntry) : Except PolicyError PolicySet :=
  match compileFrom 0 entries with
  | .ok policies => .ok ⟨policies⟩
  | .error cause => .error cause

/-- How many policies there are. -/
def size (set : PolicySet) : Nat := set.policies.length

/-- The entries as written, in order. -/
def entries (set : PolicySet) : List PolicyEntry :=
  set.policies.map (·.entry)

/-- The place of the policy that governs a file. -/
def position? (set : PolicySet) (file : String) : Option Nat :=
  set.policies.findIdx? (·.governs file)

/-- The policy that governs a file. -/
def select? (set : PolicySet) (file : String) : Option Policy :=
  set.policies.find? (·.governs file)

/-- Checks the imports of one file.  A file without a policy is one finding by itself, and none of its
imports is looked at then. -/
def checkFile (set : PolicySet) (file : String) (imports : List ImportRef) : FileCheck :=
  match set.select? file with
  | none => ⟨[.badFilename file], [], imports⟩
  | some policy => policy.read file [] [] imports

end PolicySet

end ImportLint
