/-
`Proofs/Positions.lean` -- state elements by position and by path.

A position says which state child to take on each level, so it names one state element of a tree all
of whose ancestors below the top are state elements too. Going down to it, one passes ids; they are
its path. Where ids are unique on every level, positions and the paths that resolve are the same
thing.
-/
import Mathlib.Data.Set.Function
import Statechart.Proofs.Lookup

set_option autoImplicit false

namespace Statechart.Element

variable {M : Type}

/-! ## 1. Going down -/

/-- The element at a position: each index takes one of the state children of a level. -/
def descend? : Element M → List Nat → Option (Element M)
  | element, [] => some element
  | element, index :: rest =>
      (element.childrenOf .state)[index]?.bind fun state => state.descend? rest

/-- The ids that are passed on the way to a position, if each state there spells one. -/
def idPath? : Element M → List Nat → Option (List String)
  | _, [] => some []
  | element, index :: rest =>
      (element.childrenOf .state)[index]?.bind fun state =>
        (state.key? "id").bind fun id => (state.idPath? rest).map (id :: ·)

/-- The positions of the state elements below the top. -/
def statePositions (root : Element M) : Set (List Nat) :=
  {position | position ≠ [] ∧ (root.descend? position).isSome}

/-- On every level, from the top down, the state children spell ids, and different ones. -/
def UniqueIds (root : Element M) : Prop :=
  ∀ position element, root.descend? position = some element →
    Siblings.UniqueKeys ((element.childrenOf .state).map (key? "id"))

/-- Where ids are unique from the top down, they are so from each state child down. -/
theorem UniqueIds.child {root state : Element M} (h : root.UniqueIds) {index : Nat}
    (hstate : (root.childrenOf .state)[index]? = some state) : state.UniqueIds := by
  intro position element helement
  refine h (index :: position) element ?_
  rw [descend?, hstate]
  exact helement

/-- Where ids are unique, a state child spells an id. -/
theorem UniqueIds.exists_key? {root state : Element M} (h : root.UniqueIds) {index : Nat}
    (hstate : (root.childrenOf .state)[index]? = some state) : ∃ id, state.key? "id" = some id := by
  obtain ⟨found, hfound, -⟩ := h [] root rfl
  have hmem : state.key? "id" ∈ found.map some :=
    hfound ▸ List.mem_map_of_mem (List.mem_of_getElem? hstate)
  obtain ⟨id, -, hid⟩ := List.mem_map.mp hmem
  exact ⟨id, hid.symm⟩

/-- Where ids are unique and there is a state child, there is one with an id. -/
theorem UniqueIds.exists_keyed {root : Element M} (h : root.UniqueIds)
    (nonempty : root.childrenOf .state ≠ []) :
    ∃ state ∈ root.childrenOf .state, (state.key? "id").isSome := by
  obtain ⟨state, rest, hstates⟩ := List.exists_cons_of_ne_nil nonempty
  have hfirst : (root.childrenOf .state)[0]? = some state := by
    rw [hstates]
    rfl
  obtain ⟨id, hid⟩ := h.exists_key? hfirst
  refine ⟨state, List.mem_of_getElem? hfirst, ?_⟩
  rw [hid]
  rfl

/-- Where ids are unique, an id names one state child. -/
theorem UniqueIds.index_eq {root state state' : Element M} (h : root.UniqueIds) {index index' : Nat}
    (hstate : (root.childrenOf .state)[index]? = some state)
    (hstate' : (root.childrenOf .state)[index']? = some state')
    (hkey : state.key? "id" = state'.key? "id") : index = index' := by
  obtain ⟨found, hfound, hnodup⟩ := h [] root rfl
  have hlength : (root.childrenOf .state).length = found.length := by
    simpa using congrArg List.length hfound
  have hget : ∀ {i : Nat} {s : Element M}, (root.childrenOf .state)[i]? = some s →
      found[i]?.map some = some (s.key? "id") := by
    intro i s hs
    rw [← List.getElem?_map, ← hfound, List.getElem?_map, hs]
    rfl
  -- both positions spell one id, and no id stands at two positions
  have heq : found[index]? = found[index']? :=
    Option.map_injective (Option.some_injective _)
      ((hget hstate).trans ((congrArg some hkey).trans (hget hstate').symm))
  have hlt : index < found.length :=
    hlength ▸ (List.getElem?_eq_some_iff.mp hstate).1
  exact (List.getElem?_inj hlt hnodup).mp heq

/-- Where ids are unique, the last state child of an id is the only one. -/
theorem UniqueIds.lastState?_eq {root state : Element M} (h : root.UniqueIds) {index : Nat}
    (hstate : (root.childrenOf .state)[index]? = some state) {id : String}
    (hid : state.key? "id" = some id) : root.lastState? id = some state := by
  have hmem : state ∈ (root.childrenOf .state).filter fun s => s.key? "id" == some id :=
    List.mem_filter.mpr ⟨List.mem_of_getElem? hstate, by simp [hid]⟩
  obtain ⟨last, hlast⟩ := Option.isSome_iff_exists.mp
    (List.getLast?_isSome.mpr (List.ne_nil_of_mem hmem))
  obtain ⟨hlastMem, hlastId⟩ := List.mem_filter.mp (List.mem_of_getLast? hlast)
  obtain ⟨index', hindex'⟩ := List.mem_iff_getElem?.mp hlastMem
  have hsame : index' = index :=
    h.index_eq hindex' hstate (by rw [hid]; simpa using hlastId)
  rw [lastState?, hlast]
  exact (hindex'.symm.trans (hsame ▸ hstate))

/-! ## 2. Positions and paths -/

/-- The path of a position resolves to the element that is there. -/
theorem UniqueIds.resolve?_idPath? {root : Element M} (h : root.UniqueIds) {position : List Nat}
    {element : Element M} (helement : root.descend? position = some element) :
    ∃ path, root.idPath? position = some path ∧ path.length = position.length ∧
      root.resolve? path = some element := by
  induction position generalizing root with
  | nil => exact ⟨[], rfl, rfl, helement⟩
  | cons index rest ih =>
      rw [descend?] at helement
      obtain ⟨state, hstate, hrest⟩ := Option.bind_eq_some_iff.mp helement
      obtain ⟨id, hid⟩ := h.exists_key? hstate
      obtain ⟨path, hpath, hlength, hresolve⟩ := ih (h.child hstate) hrest
      refine ⟨id :: path, ?_, congrArg (· + 1) hlength, ?_⟩
      · rw [idPath?, hstate, Option.bind_some, hid, Option.bind_some, hpath, Option.map_some]
      · rw [resolve?, h.lastState?_eq hstate hid]
        exact hresolve

/-- Different positions have different paths. -/
theorem UniqueIds.position_eq {root : Element M} (h : root.UniqueIds) {path : List String}
    {position position' : List Nat} (hpath : root.idPath? position = some path)
    (hpath' : root.idPath? position' = some path) : position = position' := by
  induction path generalizing root position position' with
  | nil =>
      have hnil : ∀ {p : List Nat}, root.idPath? p = some [] → p = [] := by
        intro p hp
        cases p with
        | nil => rfl
        | cons index rest =>
            simp only [idPath?, Option.bind_eq_some_iff, Option.map_eq_some_iff] at hp
            obtain ⟨_, _, _, _, _, _, hcons⟩ := hp
            exact absurd hcons nofun
      rw [hnil hpath, hnil hpath']
  | cons id path ih =>
      -- the first segment fixes the first index, and the rest goes on from the same state
      have hcons : ∀ {p : List Nat}, root.idPath? p = some (id :: path) →
          ∃ index rest state, p = index :: rest ∧ (root.childrenOf .state)[index]? = some state ∧
            state.key? "id" = some id ∧ state.idPath? rest = some path := by
        intro p hp
        cases p with
        | nil => exact absurd hp nofun
        | cons index rest =>
            simp only [idPath?, Option.bind_eq_some_iff, Option.map_eq_some_iff] at hp
            obtain ⟨state, hstate, id', hid, path', hrest, hsame⟩ := hp
            obtain ⟨rfl, rfl⟩ := List.cons.inj hsame
            exact ⟨index, rest, state, rfl, hstate, hid, hrest⟩
      obtain ⟨index, rest, state, rfl, hstate, hid, hrest⟩ := hcons hpath
      obtain ⟨index', rest', state', rfl, hstate', hid', hrest'⟩ := hcons hpath'
      obtain rfl := h.index_eq hstate hstate' (hid.trans hid'.symm)
      obtain rfl : state = state' := Option.some.inj (hstate.symm.trans hstate')
      rw [ih (h.child hstate) hrest hrest']

/-- Every path that resolves is the path of a position. -/
theorem exists_position {root element : Element M} {path : List String}
    (h : root.resolve? path = some element) :
    ∃ position, root.idPath? position = some path ∧ position.length = path.length ∧
      root.descend? position = some element := by
  induction path generalizing root with
  | nil => exact ⟨[], rfl, rfl, h⟩
  | cons id path ih =>
      rw [resolve?] at h
      obtain ⟨state, hstate, hrest⟩ := Option.bind_eq_some_iff.mp h
      obtain ⟨hmem, hid⟩ := List.mem_filter.mp (List.mem_of_getLast? hstate)
      obtain ⟨index, hindex⟩ := List.mem_iff_getElem?.mp hmem
      obtain ⟨position, hposition, hlength, hdescend⟩ := ih hrest
      have hkey : state.key? "id" = some id := by simpa using hid
      refine ⟨index :: position, ?_, congrArg (· + 1) hlength, ?_⟩
      · rw [idPath?, hindex, Option.bind_some, hkey, Option.bind_some, hposition, Option.map_some]
      · rw [descend?, hindex]
        exact hdescend

/-- Where ids are unique, going by position and going by path is the same. -/
theorem UniqueIds.bijOn_idPath? {root : Element M} (h : root.UniqueIds) :
    Set.BijOn root.idPath? root.statePositions
      (some '' {path | path ≠ [] ∧ (root.resolve? path).isSome}) := by
  have hpath : ∀ position ∈ root.statePositions, ∃ path, root.idPath? position = some path ∧
      path ≠ [] ∧ (root.resolve? path).isSome := by
    rintro position ⟨hne, hsome⟩
    obtain ⟨element, helement⟩ := Option.isSome_iff_exists.mp hsome
    obtain ⟨path, hpath, hlength, hresolve⟩ := h.resolve?_idPath? helement
    refine ⟨path, hpath, ?_, by rw [hresolve]; rfl⟩
    exact fun hnil => hne (List.length_eq_zero_iff.mp (hlength ▸ hnil ▸ rfl))
  refine ⟨?_, ?_, ?_⟩
  -- every position has a path, different positions have different paths, and every path has one
  · intro position hposition
    obtain ⟨path, hidPath, hreach⟩ := hpath position hposition
    exact ⟨path, hreach, hidPath.symm⟩
  · intro position hposition position' _ hsame
    obtain ⟨path, hidPath, -⟩ := hpath position hposition
    exact h.position_eq hidPath (hsame ▸ hidPath)
  · rintro _ ⟨path, ⟨hne, hsome⟩, rfl⟩
    obtain ⟨element, helement⟩ := Option.isSome_iff_exists.mp hsome
    obtain ⟨position, hidPath, hlength, hdescend⟩ := exists_position helement
    refine ⟨position, ⟨?_, by rw [hdescend]; rfl⟩, hidPath⟩
    exact fun hnil => hne (List.length_eq_zero_iff.mp (hlength ▸ hnil ▸ rfl))

end Statechart.Element
