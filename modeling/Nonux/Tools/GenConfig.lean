import Nonux.Framework.Bootstrap
import Nonux.Tools.ValidateConfig

/-!
# The generator (`tools/gen-config.py`)

From `kernel.json` the generator makes the table of slots that is linked into the kernel and the
list of sources to compile, which has every implementation once, those that are only alternatives
too. From a manifest it makes the table of the component's dependencies. `generate` is the kernel
that comes out of them: `struct nx_boot_slot` by `struct nx_boot_slot`, and a descriptor for each
source.

## The model

Errors are the texts that are printed. What a descriptor has from the component's own source, the
size of its state and its operations, is given (`Sources`); a state has a size that is not 0, as
every type of C. The generated text, the configuration values and the fields that are for the
compiler only are left out.
-/

namespace Nonux.Tools

open Nonux.Lib Nonux.Framework List

/-! ### Errors -/

/-- Go on with a value that is there. -/
def orError {α : Type} (o : Option α) (text : String) : Except String α :=
  match o with
  | some a => .ok a
  | none => .error text

/-- Go on if a condition holds. -/
def check (b : Bool) (text : String) : Except String Unit := if b then .ok () else .error text

/-- A string that is not empty. -/
def nonEmptyStr (j : Json) : Option String := j.asStr.filter (· ≠ "")

/-! ### Names -/

/-- `c_ident` -/
def cIdent (name : String) : Except String Unit :=
  check (matchesWhole isIdent name) s!"{quoted name} is not a valid C identifier"

/-- `[A-Za-z_][A-Za-z0-9_.]*` -/
def isSlotName : List Char → Bool
  | [] => false
  | c :: cs => isIdentStart c && cs.all fun c => isIdentStart c || isAsciiDigit c || decide (c = '.')

/-- `slot_name_to_macro`, for its check. -/
def slotNameToMacro (slot : String) : Except String Unit :=
  check (matchesWhole isSlotName slot) s!"slot name {quoted slot} contains invalid characters"

/-! ### Manifests -/

/-- `MODE_MAP` -/
def modeMap : String → Option ConnMode
  | "async" => some .async
  | "sync" => some .sync
  | _ => none

/-- `POLICY_MAP` -/
def policyMap : String → Option PausePolicy
  | "queue" => some .queue
  | "reject" => some .reject
  | "redirect" => some .redirect
  | _ => none

/-- A boolean. -/
def asBool : Json → Option Bool
  | .bool b => some b
  | _ => none

/-- `parse_dep` -/
def parseDep (depName : String) (spec : Json) (required : Bool) : Except String DepDescriptor := do
  check spec.isObj s!"dep {quoted depName}: expected object"
  let mode ← orError (((spec.get "mode").getD (.str "async")).asStr.bind modeMap)
    s!"dep {quoted depName}: mode must be 'async' or 'sync'"
  let policy ← orError (((spec.get "policy").getD (.str "queue")).asStr.bind policyMap)
    s!"dep {quoted depName}: policy must be 'queue', 'reject', or 'redirect'"
  let stateful ← orError (asBool ((spec.get "stateful").getD (.bool false)))
    s!"dep {quoted depName}: stateful must be boolean"
  check (isNullOrStr ((spec.get "version").getD .null)) s!"dep {quoted depName}: version must be string"
  cIdent (String.ofList (depName.toList.map fun c => if c = '.' then '_' else c))
  .ok { name := depName, required, mode, stateful, policy }
where
  isNullOrStr : Json → Bool
    | .null | .str _ => true
    | _ => false

/-- The two loops of `load_manifest`: the dependencies of one kind. `seen` are the names of those
before. -/
def parseDeps (raw : Json) (kind : String) (required : Bool) (seen : List String) :
    Except String (List DepDescriptor) :=
  (sortedItems (getObj raw kind)).mapM fun dep =>
    if dep.1 ∈ seen then .error s!"dep {quoted dep.1} listed in both requires and optional"
    else parseDep dep.1 dep.2 required

/-- `load_manifest`: the name and the dependencies. -/
def loadManifest (path : String) (raw : Json) : Except String (String × List DepDescriptor) := do
  check raw.isObj s!"{path}: top-level must be an object"
  let field ← orError (raw.get "name") s!"{path}: missing required field 'name'"
  let name ← orError (nonEmptyStr field) s!"{path}: 'name' must be a non-empty string"
  let requires ← parseDeps raw "requires" true []
  let optional ← parseDeps raw "optional" false (getObj raw "requires").keys
  .ok (name, requires ++ optional)

/-! ### The kernel -/

/-- A binding of `load_kernel`. -/
structure Binding where
  slot : String
  impl : String
  alternatives : List String
  deriving DecidableEq, Repr

/-- `load_kernel`, for one alternative. -/
def loadAlternative (slot : String) (entry : Json) : Except String String := do
  let alt ← orError (nonEmptyStr entry)
    s!"components.{quoted slot}.alternatives: entries must be non-empty strings"
  cIdent alt
  .ok alt

/-- `load_kernel`, for one slot. -/
def loadBinding (slot : String) (entry : Json) : Except String Binding := do
  check entry.isObj s!"components.{quoted slot}: expected object"
  let impl ← orError ((entry.get "impl").bind nonEmptyStr)
    s!"components.{quoted slot}: missing or non-string 'impl'"
  cIdent impl
  slotNameToMacro slot
  check (getObj entry "config").isObj s!"components.{quoted slot}.config: expected object"
  let alternatives ← orError ((entry.get "alternatives").getD (.arr [])).asArr
    s!"components.{quoted slot}.alternatives: expected list"
  let alternatives ← alternatives.mapM (loadAlternative slot)
  .ok { slot, impl, alternatives }

/-- `load_kernel`: the bindings, by the names of their slots. -/
def loadKernel (raw : Json) : Except String (List Binding) := do
  check raw.isObj "kernel.json: top-level must be an object"
  check ((raw.get "target").bind Json.asStr).isSome "kernel.json: missing or non-string 'target'"
  check (!(componentsOf raw).items.isEmpty) "kernel.json: 'components' must be a non-empty object"
  (sortedItems (componentsOf raw)).mapM fun slot => loadBinding slot.1 slot.2

/-- `render_sources_mk`: the components that are compiled. -/
def componentSrcs (bindings : List Binding) : List String :=
  sorted (bindings.flatMap fun b => b.impl :: b.alternatives).dedup

/-- `render_slot_table_c`: one slot for each binding. -/
def slotTable (bindings : List Binding) : List BootSlot :=
  bindings.map fun b => { name := b.slot, mutability := .hot, implName := some b.impl }

/-- What descriptors have from the sources of the components. -/
structure Sources where
  /-- `sizeof(CONTAINER)` -/
  stateSize : String → ℕ+
  ops : String → List CompOp

/-- A document that has to be there. -/
def readable (path : String) : Except ReadError Json → Except String Json
  | .ok raw => .ok raw
  | .error .notFound => .error s!"{path}: not found"
  | .error .invalidJson => .error s!"{path}: invalid JSON"

/-- The descriptor of a source, with the dependencies of its manifest. -/
def describe (t : ConfigTree) (src : Sources) (impl : String) : Except String ComponentDescriptor := do
  let path := s!"components/{impl}/manifest.json"
  let raw ← readable path (t.manifest impl)
  let manifest ← loadManifest path raw
  .ok { name := manifest.1, stateSize := src.stateSize impl, deps := manifest.2, ops := src.ops impl }

/-- The kernel that is linked from what is generated. -/
def generate (t : ConfigTree) (src : Sources) : Except String Composition := do
  let raw ← readable "kernel.json" t.kernel
  let bindings ← loadKernel raw
  let components ← (componentSrcs bindings).mapM (describe t src)
  .ok { bootSlots := slotTable bindings, components }

/-! ### What comes out without an error -/

section Except

variable {ε α β : Type}

variable {f : α → Except ε β}

theorem bind_eq_ok {x : Except ε α} {b : β} : x >>= f = .ok b ↔ ∃ a, x = .ok a ∧ f a = .ok b := by
  cases x with
  | error e | ok a => simp [bind, Except.bind]

variable {l : List α} {l' : List β}

/-- What does not change under the function is listed alike. -/
theorem map_mapM {γ : Type} (h : l.mapM f = .ok l') (g : β → γ) (g' : α → γ)
    (hg : ∀ a ∈ l, ∀ b, f a = .ok b → g b = g' a) : l'.map g = l.map g' := by
  induction l generalizing l' with
  | nil =>
    obtain rfl : l' = [] := by simpa [pure, Except.pure, eq_comm] using h
    rfl
  | cons a l ih =>
    rw [mapM_cons, bind_eq_ok] at h
    obtain ⟨b, hb, h⟩ := h
    obtain ⟨bs, hbs, h⟩ := bind_eq_ok.mp h
    obtain rfl : l' = b :: bs := by simpa [pure, Except.pure, eq_comm] using h
    rw [map_cons, map_cons, hg a mem_cons_self b hb,
      ih hbs fun a ha => hg a (mem_cons_of_mem _ ha)]

/-- What is in the result comes from something. -/
theorem exists_of_mem_mapM (h : l.mapM f = .ok l') {b : β} (hb : b ∈ l') : ∃ a ∈ l, f a = .ok b := by
  have hmap : l'.map .ok = l.map f := map_mapM h _ _ fun a _ b hab => hab.symm
  exact mem_map.mp (hmap ▸ mem_map_of_mem hb)

end Except

theorem orError_eq_ok {α : Type} {o : Option α} {text : String} {a : α} :
    orError o text = .ok a ↔ o = some a := by
  cases o with
  | none => simp [orError]
  | some b => simp [orError]

theorem parseDep_ok {depName : String} {spec : Json} {required : Bool} {d : DepDescriptor}
    (h : parseDep depName spec required = .ok d) : d.name = depName ∧ d.required = required := by
  simp only [parseDep, bind_eq_ok] at h
  obtain ⟨-, -, mode, -, policy, -, stateful, -, -, -, -, -, h⟩ := h
  obtain rfl := Except.ok.inj h
  exact ⟨rfl, rfl⟩

variable {raw : Json}

theorem parseDeps_ok {kind : String} {required : Bool} {seen : List String} {deps : List DepDescriptor}
    (h : parseDeps raw kind required seen = .ok deps) :
    ∀ d ∈ deps, d.name ∈ (getObj raw kind).keys ∧ d.required = required := by
  intro d hd
  obtain ⟨dep, hdep, hparse⟩ := exists_of_mem_mapM h hd
  split_ifs at hparse
  obtain ⟨hname, hrequired⟩ := parseDep_ok hparse
  exact ⟨hname ▸ mem_map_of_mem ((mem_insertionSort _).mp hdep), hrequired⟩

theorem nonEmptyStr_eq_some {j : Json} {s : String} (h : nonEmptyStr j = some s) : j.asStr = some s :=
  (Option.filter_eq_some_iff.mp h).1

/-- What a component requires is what its manifest says. -/
theorem loadManifest_ok {path : String}
    {m : String × List DepDescriptor} (h : loadManifest path raw = .ok m) :
    (raw.get "name").bind Json.asStr = some m.1 ∧
      ∀ d ∈ m.2, d.required = true → d.name ∈ (getObj raw "requires").keys := by
  simp only [loadManifest, bind_eq_ok, orError_eq_ok] at h
  obtain ⟨-, -, field, hfield, name, hname, requires, hrequires, optional, hoptional, h⟩ := h
  obtain rfl := Except.ok.inj h
  refine ⟨by rw [hfield, Option.bind_some, nonEmptyStr_eq_some hname], fun d hd hreq => ?_⟩
  rcases mem_append.mp hd with hd | hd
  · exact (parseDeps_ok hrequires d hd).1
  · rw [(parseDeps_ok hoptional d hd).2] at hreq
    cases hreq

theorem loadBinding_ok {slot : String} {entry : Json} {b : Binding}
    (h : loadBinding slot entry = .ok b) :
    b.slot = slot ∧ b.impl = implOf entry ∧ (entry.get "alternatives" = none → b.alternatives = []) := by
  simp only [loadBinding, bind_eq_ok, orError_eq_ok] at h
  obtain ⟨-, -, impl, himpl, -, -, -, -, -, -, alts, halts, alternatives, hmap, h⟩ := h
  obtain rfl := Except.ok.inj h
  obtain ⟨field, hfield, hstr⟩ := Option.bind_eq_some_iff.mp himpl
  refine ⟨rfl, ?_, fun hnone => ?_⟩
  · rw [implOf, hfield, Option.bind_some, nonEmptyStr_eq_some hstr]
    rfl
  · obtain rfl : alts = [] := by simpa [hnone, Json.asArr, eq_comm] using halts
    simpa [pure, Except.pure, eq_comm] using hmap

theorem readable_ok {path : String} {doc : Except ReadError Json} (h : readable path doc = .ok raw) :
    doc = .ok raw := by
  cases doc with
  | ok raw' => exact congrArg Except.ok (Except.ok.inj h)
  | error e => cases e <;> cases h

theorem describe_ok {t : ConfigTree} {src : Sources} {impl : String} {d : ComponentDescriptor}
    (h : describe t src impl = .ok d) : ∃ raw, t.manifest impl = .ok raw ∧
      (raw.get "name").bind Json.asStr = some d.name ∧ 0 < d.stateSize ∧
      ∀ dep ∈ d.deps, dep.required = true → dep.name ∈ (getObj raw "requires").keys := by
  simp only [describe, bind_eq_ok] at h
  obtain ⟨raw, hraw, m, hm, h⟩ := h
  obtain rfl := Except.ok.inj h
  exact ⟨raw, readable_ok hraw, (loadManifest_ok hm).1, (src.stateSize impl).pos, (loadManifest_ok hm).2⟩

end Nonux.Tools
