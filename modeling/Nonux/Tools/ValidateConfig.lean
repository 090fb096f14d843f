import Nonux.Lib.Dfs
import Nonux.Lib.Json

/-!
# The validator (`tools/validate-config.py`)

`kernel.json` names the slots of a kernel and the component that is to be behind each, and every
component has a manifest with its version and the slots it depends on. `validateConfig` checks the
documents against their schemas and against each other, and returns what it finds wrong.

## The model

The documents are as the directory has them (`ConfigTree`). Errors are the texts that are printed,
except that of a schema, whose text comes from elsewhere. A manifest that does not have the shape of
its schema is an error already when the later checks look at it; where they would stop at it, the
model goes on.
-/

namespace Nonux.Tools

open Nonux.Lib

/-! ### Text -/

/-- `$` matches at the end, and before a newline at the end. -/
def matchesWhole (p : List Char → Bool) (s : String) : Bool :=
  p s.toList || (decide (s.toList.getLast? = some '\n') && p s.toList.dropLast)

def isAsciiDigit (c : Char) : Bool := decide ('0' ≤ c) && decide (c ≤ '9')

def isIdentStart (c : Char) : Bool :=
  (decide ('a' ≤ c) && decide (c ≤ 'z')) || (decide ('A' ≤ c) && decide (c ≤ 'Z')) || decide (c = '_')

/-- `[A-Za-z_][A-Za-z0-9_]*` -/
def isIdent : List Char → Bool
  | [] => false
  | c :: cs => isIdentStart c && cs.all fun c => isIdentStart c || isAsciiDigit c

/-- `[0-9]+`, as a number. -/
def natOf (cs : List Char) : Option ℕ :=
  if cs ≠ [] ∧ cs.all isAsciiDigit then
    some (cs.foldl (fun n c => 10 * n + (c.toNat - '0'.toNat)) 0) else none

/-- `X.Y.Z` -/
def tripleOf (cs : List Char) : Option (ℕ × ℕ × ℕ) :=
  match cs.splitOn '.' with
  | [x, y, z] => do
    let x ← natOf x
    let y ← natOf y
    let z ← natOf z
    pure (x, y, z)
  | _ => none

/-- The value of a pattern that has to match to the end. -/
def wholeValue {β : Type} (p : List Char → Option β) (s : String) : Option β :=
  (p s.toList).orElse fun _ => if s.toList.getLast? = some '\n' then p s.toList.dropLast else none

/-- `{s!r}` -/
def quoted (s : String) : String := "'" ++ s ++ "'"

/-- `sorted` -/
def sorted (l : List String) : List String := l.insertionSort (· ≤ ·)

/-- `sorted(d.items())` -/
def sortedItems (j : Json) : List (String × Json) := j.items.insertionSort fun a b => a.1 ≤ b.1

/-- `d.get(k, {})` -/
def getObj (j : Json) (k : String) : Json := (j.get k).getD (.obj [])

/-! ### Versions -/

/-- `parse_semver` -/
def parseSemver (s : String) : Except String (ℕ × ℕ × ℕ) :=
  match wholeValue tripleOf s with
  | some v => .ok v
  | none => .error s!"version {quoted s} is not X.Y.Z"

/-- `>=\s*X.Y.Z` -/
def constraintOf : List Char → Option (ℕ × ℕ × ℕ)
  | '>' :: '=' :: cs => tripleOf (cs.dropWhile Char.isWhitespace)
  | _ => none

/-- `satisfies`. Versions are compared from the left. -/
def satisfies (bound version : String) : Except String Bool :=
  match wholeValue constraintOf bound with
  | none => .error s!"version constraint {quoted bound} must be '>=X.Y.Z'"
  | some (x, y, z) => do
    let (x', y', z') ← parseSemver version
    pure (decide (x < x' ∨ x = x' ∧ (y < y' ∨ y = y' ∧ z ≤ z')))

/-! ### The schemas -/

/-- `schemas/kernel.schema.json` -/
def kernelSchema : Schema :=
  .object
    [("target", .string),
      ("components", .object [] slotBinding [] 1),
      ("connections", .array connectionOverride),
      ("hooks", .array (.object [] .any [] 0)),
      ("posix", .object [] .any [] 0)]
    .never ["target", "components"] 0
where
  slotBinding : Schema :=
    .object
      [("impl", .matching (matchesWhole isIdent)),
        ("config", .object [] .any [] 0),
        ("iface", .string)]
      .never ["impl"] 0
  connectionOverride : Schema :=
    .object
      [("from", .nullable .string),
        ("to", .string),
        ("mode", .enum ["async", "sync"]),
        ("stateful", .boolean),
        ("policy", .enum ["queue", "reject", "redirect"])]
      .never ["from", "to"] 0

/-- `schemas/manifest.schema.json` -/
def manifestSchema : Schema :=
  .object
    [("name", .matching (matchesWhole isIdent)),
      ("version", .matching fun s => (wholeValue tripleOf s).isSome),
      ("iface", .string),
      ("requires", .object [] depSpec [] 0),
      ("optional", .object [] depSpec [] 0),
      ("spawns_threads", .boolean),
      ("pause_hook", .boolean)]
    .never ["name", "version"] 0
where
  depSpec : Schema :=
    .object
      [("version", .matching fun s => (wholeValue strictConstraint s).isSome),
        ("mode", .enum ["async", "sync"]),
        ("stateful", .boolean),
        ("policy", .enum ["queue", "reject", "redirect"])]
      .never [] 0
  /-- `>=X.Y.Z`, without blanks. -/
  strictConstraint : List Char → Option (ℕ × ℕ × ℕ)
    | '>' :: '=' :: cs => tripleOf cs
    | _ => none

/-! ### Loading -/

/-- Why there is no document. -/
inductive ReadError where
  | notFound
  | invalidJson
  deriving DecidableEq, Repr

/-- What is in the directory. -/
structure ConfigTree where
  kernel : Except ReadError Json
  /-- `components/<impl>/manifest.json` -/
  manifest : String → Except ReadError Json

/-- `entry["impl"]` -/
def implOf (entry : Json) : String := ((entry.get "impl").bind Json.asStr).getD ""

/-- `kernel["components"]` -/
def componentsOf (kernel : Json) : Json := getObj kernel "components"

/-- `load_component_manifests`, for one of them. -/
def loadComponentManifest (t : ConfigTree) (impl : String) : Option Json × List String :=
  match t.manifest impl with
  | .error .notFound =>
      (none, [s!"components/{impl}/manifest.json: not found (referenced by kernel.json)"])
  | .error .invalidJson => (none, [s!"components/{impl}/manifest.json: invalid JSON"])
  | .ok raw =>
    let name := raw.get "name"
    if name.bind Json.asStr ≠ some impl then
      let shown := ((name.bind Json.asStr).map quoted).getD "None"
      (some raw,
        [s!"components/{impl}/manifest.json: manifest.name={shown} does not match directory name {quoted impl}"])
    else (some raw, [])

/-- `load_component_manifests`: the manifests, by implementation, and what is wrong with them. -/
def loadComponentManifests (t : ConfigTree) (impls : List String) : List (String × Json) × List String :=
  let loaded := (sorted impls.dedup).map fun impl => (impl, loadComponentManifest t impl)
  (loaded.filterMap fun e => e.2.1.map (e.1, ·), loaded.flatMap fun e => e.2.2)

/-- `manifests.get(impl)` -/
def findManifest (manifests : List (String × Json)) (impl : String) : Option Json :=
  (manifests.find? fun e => e.1 = impl).map Prod.snd

/-! ### Checks -/

/-- `check_pause_hook_required` -/
def checkPauseHookRequired (manifests : List (String × Json)) : List String :=
  manifests.flatMap fun e =>
    if (e.2.get "spawns_threads").any Json.truthy ∧ ¬ (e.2.get "pause_hook").any Json.truthy then
      [s!"components/{e.1}/manifest.json: spawns_threads=true requires pause_hook=true (pause protocol needs a hook " ++
        "to quiesce component-spawned threads)"]
    else []

/-- `check_versions`, for one dependency of a component. -/
def checkDependency (kernel : Json) (manifests : List (String × Json)) (impl kind dep : String)
    (spec : Json) : List String :=
  match ((componentsOf kernel).get dep).map implOf with
  | none | some "" =>
    -- A slot that is not there is in the way of a component that requires it only.
    if kind = "requires" then
      [s!"components/{impl}/manifest.json: requires {quoted dep}, but kernel.json has no slot of that name"]
    else []
  | some target =>
    match (spec.get "version").bind Json.asStr, findManifest manifests target with
    | none, _ | some "", _ | some _, none => []
    | some bound, some manifest =>
      match (manifest.get "version").bind Json.asStr with
      | none | some "" =>
        [s!"components/{target}/manifest.json: missing top-level 'version' (needed by {impl})"]
      | some version =>
        match satisfies bound version with
        | .error text => [s!"components/{impl}/manifest.json: {kind}.{dep}.version: {text}"]
        | .ok true => []
        | .ok false =>
          [s!"components/{impl}/manifest.json: {kind}.{dep}.version={quoted bound} not satisfied by " ++
            s!"{target} version {quoted version}"]

/-- `check_versions` -/
def checkVersions (kernel : Json) (manifests : List (String × Json)) : List String :=
  (sortedItems (componentsOf kernel)).flatMap fun slot =>
    match findManifest manifests (implOf slot.2) with
    | none => []
    | some m =>
      ["requires", "optional"].flatMap fun kind =>
        (sortedItems (getObj m kind)).flatMap fun dep =>
          checkDependency kernel manifests (implOf slot.2) kind dep.1 dep.2

/-- `build_dep_graph`: the slots, and where each leads to. -/
def buildDepGraph (kernel : Json) (manifests : List (String × Json)) : List (String × List String) :=
  (componentsOf kernel).items.map fun slot =>
    let m := (findManifest manifests (implOf slot.2)).getD (.obj [])
    let deps := (["requires", "optional"].flatMap fun kind => (getObj m kind).keys).filter
      (· ∈ (componentsOf kernel).keys)
    (slot.1, sorted deps.dedup)

/-- `graph[node]` -/
def neighbours (graph : List (String × List String)) (node : String) : List String :=
  ((graph.find? fun e => e.1 = node).map Prod.snd).getD []

/-- `find_cycle` -/
def findCycle (graph : List (String × List String)) : Option (List String) :=
  Dfs.findCycle (neighbours graph) (sorted (graph.map Prod.fst))

/-- `check_cycles` -/
def checkCycles (graph : List (String × List String)) : List String :=
  match findCycle graph with
  | none => []
  | some cycle => ["dependency cycle detected: " ++ String.intercalate " → " cycle]

theorem mem_sorted {l : List String} {a : String} : a ∈ sorted l ↔ a ∈ l := List.mem_insertionSort _

/-- What is no key leads nowhere. -/
theorem neighbours_eq_nil (graph : List (String × List String)) (n : String)
    (hn : n ∉ sorted (graph.map Prod.fst)) : neighbours graph n = [] := by
  rw [mem_sorted] at hn
  have hfind : (graph.find? fun e => e.1 = n) = none :=
    List.find?_eq_none.mpr fun e he heq => hn (List.mem_map.mpr ⟨e, he, of_decide_eq_true heq⟩)
  rw [neighbours, hfind]
  rfl

/-- **The search for a cycle** ends on every graph, and is right: it finds nothing exactly if there
is no cycle, and a list that it finds leads edge by edge to where it begins. -/
theorem findCycle_correct (graph : List (String × List String)) :
    let edge := fun a b => b ∈ neighbours graph a
    let nodes := sorted (graph.map Prod.fst)
    Dfs.searchFrom (neighbours graph) (Dfs.enough (neighbours graph) nodes) nodes
      (Dfs.start nodes) = some (findCycle graph) ∧
      (findCycle graph = none ↔ ∀ n, ¬ Relation.TransGen edge n n) ∧
      ∀ cycle, findCycle graph = some cycle → (∃ n p, cycle = n :: (p ++ [n])) ∧ cycle.IsChain edge :=
  Dfs.findCycle_ends (neighbours_eq_nil graph)

/-! ### All checks -/

/-- `main`, for what is printed. Nothing is printed just when it exits with 0. -/
def validateConfig (t : ConfigTree) : List String :=
  match t.kernel with
  | .error .notFound => ["validate-config.py: kernel.json: not found"]
  | .error .invalidJson => ["validate-config.py: kernel.json: invalid JSON"]
  | .ok kernel =>
    if kernelSchema kernel = false then ["kernel.json: kernel schema"]
    else
      let impls := (componentsOf kernel).items.map fun slot => implOf slot.2
      let (manifests, errors) := loadComponentManifests t impls
      errors ++
        (manifests.flatMap fun e =>
          if manifestSchema e.2 = false then [s!"components/{e.1}/manifest.json: manifest schema"]
            else []) ++
        checkPauseHookRequired manifests ++ checkVersions kernel manifests ++
        checkCycles (buildDepGraph kernel manifests)

end Nonux.Tools
