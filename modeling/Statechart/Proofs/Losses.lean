/-
`Proofs/Losses.lean` -- the checks account for what the folds lose.

A check counts the keys of siblings in a table of its own, and a fold writes the siblings over one
another; neither asks the other. Each entry that a fold places either adds a place to its table or
is reported, and each key that is counted either is new or raises a number. Over a list of siblings
the two come to the same: what the table of the fold lacks is what the check finds too much, and the
fold reports each loss once.
-/
import Statechart.Proofs.Folds

set_option autoImplicit false

namespace Statechart

/-! ## 1. What is said of siblings -/

/-- How many siblings are too many by a violation: of those that share a key, and of the invoke
blocks, all but one. -/
def Violation.surplus : Violation → Nat
  | .duplicateStateId _ count => count - 1
  | .duplicateEvent _ count => count - 1
  | .multipleInvokes count => count - 1
  | .missingStateId => 0
  | .missingEvent => 0

theorem Violation.duplicateStateId_ne_missingStateId (id : String) (count : Nat) :
    duplicateStateId id count ≠ missingStateId := by
  intro h
  cases h

theorem Violation.duplicateEvent_ne_missingEvent (event : String) (count : Nat) :
    duplicateEvent event count ≠ missingEvent := by
  intro h
  cases h

namespace Siblings

/-- What is said of keyed siblings of one kind: the violations that their check finds and the
notices that their fold gives. Nothing of it can be taken for anything else. -/
structure Vocabulary where
  /-- A sibling has no key. -/
  missing : Violation
  /-- So many siblings share a key. -/
  duplicate : String → Nat → Violation
  /-- A sibling without a key was left out. -/
  skipped : Notice
  /-- A sibling was overwritten by a later one with its key. -/
  replaced : String → Notice
  duplicate_ne_missing : ∀ key count, duplicate key count ≠ missing
  duplicate_inj : ∀ {key key' count count'},
    duplicate key count = duplicate key' count' → key = key' ∧ count = count'
  surplus_missing : missing.surplus = 0
  surplus_duplicate : ∀ key count, (duplicate key count).surplus = count - 1
  replaced_ne_skipped : ∀ key, replaced key ≠ skipped
  replaced_inj : ∀ {key key'}, replaced key = replaced key' → key = key'

/-- What is said of states. -/
def Vocabulary.ofStates : Vocabulary where
  missing := .missingStateId
  duplicate := .duplicateStateId
  skipped := .stateSkipped
  replaced := .stateReplaced
  duplicate_ne_missing := Violation.duplicateStateId_ne_missingStateId
  duplicate_inj := fun h => Violation.duplicateStateId.inj h
  surplus_missing := rfl
  surplus_duplicate := fun _ _ => rfl
  replaced_ne_skipped := fun _ h => by cases h
  replaced_inj := fun h => Notice.stateReplaced.inj h

/-- What is said of transitions. -/
def Vocabulary.ofTransitions : Vocabulary where
  missing := .missingEvent
  duplicate := .duplicateEvent
  skipped := .transitionSkipped
  replaced := .transitionReplaced
  duplicate_ne_missing := Violation.duplicateEvent_ne_missingEvent
  duplicate_inj := fun h => Violation.duplicateEvent.inj h
  surplus_missing := rfl
  surplus_duplicate := fun _ _ => rfl
  replaced_ne_skipped := fun _ h => by cases h
  replaced_inj := fun h => Notice.transitionReplaced.inj h

variable {α : Type}

/-! ## 2. The fold, step by step -/

/-- Where every step moves a balance by one or leaves it, as its entry counts or not, a run moves it
by how many of its entries count. -/
theorem balance_foldlM (held : OrderedMap α → Nat) (said : List Notice → Nat)
    (counting : Option String × α → Bool)
    {step : OrderedMap α → Option String × α → Logged (OrderedMap α)}
    (hnone : said [] = 0)
    (happend : ∀ before after, said (before ++ after) = said before + said after)
    (hstep : ∀ table entry, held (step table entry).value + said (step table entry).log
      = held table + (counting entry).toNat)
    (entries : List (Option String × α)) (table : OrderedMap α) :
    held (entries.foldlM step table).value + said (entries.foldlM step table).log
      = held table + entries.countP counting := by
  induction entries generalizing table with
  | nil => exact congrArg (held table + ·) hnone
  | cons entry rest ih =>
      have hfirst := hstep table entry
      have hrest := ih (step table entry).value
      have hcount : (entry :: rest).countP counting
          = (counting entry).toNat + rest.countP counting := by
        rw [List.countP_cons, Nat.add_comm]
        cases counting entry <;> rfl
      rw [List.foldlM_cons, Logged.value_bind, Logged.log_bind, happend, hcount]
      omega

/-- How often a key comes among entries. -/
theorem countP_key (entries : List (Option String × α)) (key? : Option String) :
    entries.countP (fun entry => entry.1 == key?) = (entries.map Prod.fst).count key? := by
  rw [List.count, List.countP_map]
  rfl

section Fold

variable (kind : Vocabulary)

/-- An entry that is placed adds a place to the table, or it is reported. -/
theorem length_place (table : OrderedMap α) (entry : Option String × α) :
    (place kind.skipped kind.replaced table entry).value.length
        + (place kind.skipped kind.replaced table entry).log.length
      = table.length + 1 := by
  obtain ⟨key?, value⟩ := entry
  cases key? with
  | none => rfl
  | some key =>
      have hkeys := congrArg List.length (OrderedMap.keys_insert table key value)
      rw [OrderedMap.keys, List.length_map] at hkeys
      rw [place, hkeys]
      by_cases h : key ∈ table.keys
      · rw [if_pos h, if_pos (OrderedMap.contains_iff.mpr h), OrderedMap.keys, List.length_map]
        rfl
      · rw [if_neg h, if_neg (fun e => h (OrderedMap.contains_iff.mp e)), List.length_append,
          OrderedMap.keys, List.length_map]
        rfl

/-- An entry is skipped if it has no key. -/
theorem count_skipped_place (table : OrderedMap α) (entry : Option String × α) :
    (place kind.skipped kind.replaced table entry).log.count kind.skipped
      = (entry.1 == none).toNat := by
  obtain ⟨key?, value⟩ := entry
  cases key? with
  | none => exact List.count_singleton_self
  | some key =>
      rw [place]
      split
      · exact List.count_cons_of_ne (kind.replaced_ne_skipped key)
      · rfl

/-- An entry brings its key into the table, or is reported for the place that it takes. -/
theorem count_replaced_place (key : String) (table : OrderedMap α) (entry : Option String × α) :
    ((place kind.skipped kind.replaced table entry).value.contains key).toNat
        + (place kind.skipped kind.replaced table entry).log.count (kind.replaced key)
      = (table.contains key).toNat + (entry.1 == some key).toNat := by
  obtain ⟨key?, value⟩ := entry
  cases key? with
  | none =>
      have hother : [kind.skipped].count (kind.replaced key) = 0 :=
        List.count_eq_zero_of_not_mem fun h =>
          kind.replaced_ne_skipped key (List.mem_singleton.mp h)
      rw [place, hother]
      rfl
  | some other =>
      rw [place]
      by_cases h : other = key
      · subst h
        have hnow : (table.insert other value).contains other = true := by
          rw [OrderedMap.contains, OrderedMap.get?_insert_self, Option.isSome_some]
        rw [hnow]
        cases table.contains other with
        | true => simp
        | false => simp
      · have hkept : (table.insert other value).contains key = table.contains key := by
          rw [OrderedMap.contains, OrderedMap.get?_insert_of_ne (fun e => h e.symm)]
          rfl
        have hsaid : (if table.contains other then [kind.replaced other] else []).count
            (kind.replaced key) = 0 := by
          refine List.count_eq_zero_of_not_mem fun hmem => ?_
          split at hmem
          · exact h (kind.replaced_inj (List.mem_singleton.mp hmem)).symm
          · exact absurd hmem List.not_mem_nil
        rw [hkept, hsaid, beq_eq_false_iff_ne.mpr (fun e => h (Option.some.inj e))]
        rfl

/-! ## 3. The fold as a whole -/

variable (entries : List (Option String × α))

/-- Every entry has its place in the table, or a notice. -/
theorem length_mergeKeyed :
    ((mergeKeyed kind.skipped kind.replaced entries).value.getD []).length
        + (mergeKeyed kind.skipped kind.replaced entries).log.length = entries.length := by
  have h := balance_foldlM List.length List.length (fun _ => true) rfl
    (fun _ _ => List.length_append) (length_place kind) entries []
  rw [List.countP_true, List.length_nil, Nat.zero_add] at h
  rw [log_mergeKeyed, mergeKeyed, Logged.value_bind, Logged.value_pure, getD_nonempty?, h]

/-- There is a notice for each entry that has no key. -/
theorem count_skipped_mergeKeyed :
    (mergeKeyed kind.skipped kind.replaced entries).log.count kind.skipped
      = (entries.map Prod.fst).count none := by
  have h := balance_foldlM (fun _ => 0) (List.count kind.skipped) (fun entry => entry.1 == none)
    rfl (fun _ _ => List.count_append)
    (fun table entry => congrArg (0 + ·) (count_skipped_place kind table entry)) entries []
  rw [Nat.zero_add, Nat.zero_add, countP_key] at h
  rw [log_mergeKeyed, h]

/-- There is a notice for each entry that has a key, but one for each key. -/
theorem count_replaced_mergeKeyed (key : String) :
    (mergeKeyed kind.skipped kind.replaced entries).log.count (kind.replaced key)
      = (entries.map Prod.fst).count (some key) - 1 := by
  have h := balance_foldlM (fun table => (table.contains key).toNat)
    (List.count (kind.replaced key)) (fun entry => entry.1 == some key) rfl
    (fun _ _ => List.count_append) (count_replaced_place kind key) entries []
  -- in the end the key is in the table exactly where it came at all
  have hcontains : (entries.foldlM (place kind.skipped kind.replaced) []).value.contains key
      = decide (0 < (entries.map Prod.fst).count (some key)) := by
    rw [Bool.eq_iff_iff, OrderedMap.contains_iff, decide_eq_true_iff, List.count_pos_iff,
      value_foldlM_place]
    show key ∈ (OrderedMap.ofBindings (keyed entries)).keys ↔ _
    rw [OrderedMap.keys_ofBindings, List.mem_eraseDups, keys_keyed]
    simp
  have hempty : (OrderedMap.contains ([] : OrderedMap α) key).toNat = 0 := rfl
  rw [hcontains, hempty, countP_key] at h
  rw [log_mergeKeyed]
  by_cases hcomes : 0 < (entries.map Prod.fst).count (some key)
  · rw [decide_eq_true hcomes, Bool.toNat_true] at h
    omega
  · rw [decide_eq_false hcomes, Bool.toNat_false] at h
    omega

end Fold

/-! ## 4. The check -/

section Found

variable (kind : Vocabulary) (keys : List (Option String))

/-- Numbers that are not zero come to one each and what those above one have more. -/
theorem sum_eq_length_add {table : OrderedMap Nat} (h : ∀ entry ∈ table, 0 < entry.2) :
    (table.map Prod.snd).sum
      = table.length + ((table.filter fun entry => 1 < entry.2).map fun entry => entry.2 - 1).sum := by
  induction table with
  | nil => rfl
  | cons entry rest ih =>
      have hfirst := h entry List.mem_cons_self
      have hrest := ih fun other hother => h other (List.mem_cons_of_mem entry hother)
      rw [List.map_cons, List.sum_cons, List.length_cons, hrest]
      by_cases hmany : 1 < entry.2
      · rw [List.filter_cons_of_pos (by simpa using hmany), List.map_cons, List.sum_cons]
        omega
      · rw [List.filter_cons_of_neg (by simpa using hmany)]
        omega

/-- A check finds a violation for each missing key. -/
theorem count_missing_keyViolations :
    (keyViolations kind.missing kind.duplicate keys).count kind.missing = keys.count none := by
  have hduplicates : ((repeated (keys.filterMap id)).map fun entry =>
      kind.duplicate entry.1 entry.2).count kind.missing = 0 := by
    refine List.count_eq_zero_of_not_mem fun hmem => ?_
    obtain ⟨entry, -, hentry⟩ := List.mem_map.mp hmem
    exact kind.duplicate_ne_missing _ _ hentry
  have hmissing : keys.countP Option.isNone = keys.count none := by
    rw [List.count]
    refine List.countP_congr fun key? _ => ?_
    cases key? <;> simp
  rw [keyViolations, List.count_append, hduplicates, List.map_const', List.count_replicate_self,
    ← List.countP_eq_length_filter, hmissing, Nat.add_zero]

/-- What a check finds is too much comes, with one for each key, to the keys that are there. -/
theorem sum_surplus_keyViolations :
    (keys.filterMap id).eraseDups.length
        + ((keyViolations kind.missing kind.duplicate keys).map Violation.surplus).sum
      = (keys.filterMap id).length := by
  have hpositive : ∀ entry ∈ counts (keys.filterMap id), 0 < entry.2 := by
    intro entry hentry
    rw [counts_eq] at hentry
    obtain ⟨key, hkey, rfl⟩ := List.mem_map.mp hentry
    exact List.count_pos_iff.mpr (List.mem_eraseDups.mp hkey)
  have hsum := sum_eq_length_add hpositive
  have hlength : (counts (keys.filterMap id)).length = (keys.filterMap id).eraseDups.length := by
    rw [← keys_counts, OrderedMap.keys, List.length_map]
  -- missing keys are no surplus
  have hmissing : ((keys.filter Option.isNone).map fun _ => kind.missing).map Violation.surplus
      = List.replicate (keys.filter Option.isNone).length 0 := by
    rw [List.map_map, List.map_const'.symm]
    exact List.map_congr_left fun _ _ => kind.surplus_missing
  have hduplicates : ((repeated (keys.filterMap id)).map fun entry =>
      kind.duplicate entry.1 entry.2).map Violation.surplus
      = (repeated (keys.filterMap id)).map fun entry => entry.2 - 1 := by
    rw [List.map_map]
    exact List.map_congr_left fun entry _ => kind.surplus_duplicate entry.1 entry.2
  rw [sum_counts, hlength] at hsum
  rw [hsum, keyViolations, List.map_append, List.sum_append, hmissing, hduplicates,
    List.sum_replicate_nat, Nat.mul_zero, Nat.zero_add, repeated]

/-- A check finds for each key that comes twice or more often how often it comes. -/
theorem mem_keyViolations_duplicate (key : String) (count : Nat) :
    kind.duplicate key count ∈ keyViolations kind.missing kind.duplicate keys ↔
      2 ≤ count ∧ keys.count (some key) = count := by
  have hmissing : kind.duplicate key count ∉
      (keys.filter Option.isNone).map fun _ => kind.missing := by
    intro hmem
    obtain ⟨_, -, hmissing⟩ := List.mem_map.mp hmem
    exact kind.duplicate_ne_missing key count hmissing.symm
  rw [keyViolations, List.mem_append, or_iff_right hmissing, repeated_filterMap_id, List.map_map]
  constructor
  · intro hmem
    obtain ⟨other, hother, hfound⟩ := List.mem_map.mp hmem
    obtain ⟨rfl, rfl⟩ := kind.duplicate_inj hfound
    exact ⟨of_decide_eq_true (List.mem_filter.mp hother).2, rfl⟩
  · rintro ⟨hmany, rfl⟩
    refine List.mem_map.mpr ⟨key, List.mem_filter.mpr ⟨?_, decide_eq_true hmany⟩, rfl⟩
    rw [List.mem_eraseDups, ← List.count_pos_iff, count_filterMap_id]
    omega

end Found

/-! ## 5. The two together -/

/-- What a check finds in entries accounts for what a fold of them loses. -/
structure Accounts (kind : Vocabulary) (entries : List (Option String × α))
    (fold : Logged (Option (OrderedMap α))) (found : List Violation) : Prop where
  /-- The entries that have no place in the table are those without a key and, of those that share
  one, all but one. -/
  length_eq : entries.length = (fold.value.getD []).length
    + (found.count kind.missing + (found.map Violation.surplus).sum)
  /-- Each of them has a notice, and nothing else has one. -/
  length_log : entries.length = (fold.value.getD []).length + fold.log.length
  /-- For each entry that the check finds without a key the fold reports that it is skipped. -/
  count_skipped : fold.log.count kind.skipped = found.count kind.missing
  /-- For each key the fold reports all entries but one as replaced. -/
  count_replaced : ∀ key, fold.log.count (kind.replaced key)
    = (entries.map Prod.fst).count (some key) - 1
  /-- Where there are more than one, the check finds just so many. -/
  mem_duplicate : ∀ key count, kind.duplicate key count ∈ found ↔
    2 ≤ count ∧ (entries.map Prod.fst).count (some key) = count
  /-- The fold reports nothing else. -/
  mem_log : ∀ notice ∈ fold.log, notice = kind.skipped ∨ ∃ key, notice = kind.replaced key

/-- Among the keys of entries some are missing, and the others are there. -/
theorem length_eq_count_none_add (keys : List (Option String)) :
    keys.length = keys.count none + (keys.filterMap id).length := by
  induction keys with
  | nil => rfl
  | cons key? rest ih =>
      cases key? with
      | none =>
          have hthere : (none :: rest).filterMap id = rest.filterMap id := rfl
          rw [hthere, List.length_cons, ih, List.count_cons_self]
          omega
      | some key =>
          have hthere : (some key :: rest).filterMap id = key :: rest.filterMap id := rfl
          rw [hthere, List.length_cons, ih, List.count_cons_of_ne (by simp), List.length_cons]
          omega

/-- The check of keys accounts for what a keyed fold loses. -/
theorem accounts_mergeKeyed (kind : Vocabulary) (entries : List (Option String × α)) :
    Accounts kind entries (mergeKeyed kind.skipped kind.replaced entries)
      (keyViolations kind.missing kind.duplicate (entries.map Prod.fst)) where
  length_eq := by
    have hplaces : ((mergeKeyed kind.skipped kind.replaced entries).value.getD []).length
        = ((entries.map Prod.fst).filterMap id).eraseDups.length := by
      rw [value_mergeKeyed, getD_nonempty?, ← keys_keyed, ← OrderedMap.keys_ofBindings,
        OrderedMap.keys, List.length_map]
    have hkeys := length_eq_count_none_add (entries.map Prod.fst)
    have hsurplus := sum_surplus_keyViolations kind (entries.map Prod.fst)
    rw [List.length_map] at hkeys
    rw [hplaces, count_missing_keyViolations]
    omega
  length_log := (length_mergeKeyed kind entries).symm
  count_skipped := by rw [count_skipped_mergeKeyed, count_missing_keyViolations]
  count_replaced := count_replaced_mergeKeyed kind entries
  mem_duplicate := mem_keyViolations_duplicate kind (entries.map Prod.fst)
  mem_log := by
    intro notice hmem
    rw [log_mergeKeyed] at hmem
    exact mem_log_foldlM_place hmem

/-! ## 6. Nothing is lost -/

/-- The table holds the entries, each under its key and in their order. -/
def HoldsAll (entries : List (Option String × α)) (table : Option (OrderedMap α)) : Prop :=
  entries = (table.getD []).map fun kept => (some kept.1, kept.2)

/-- A keyed fold holds all entries exactly where their keys are unique. -/
theorem holdsAll_mergeKeyed_iff (skipped : Notice) (replaced : String → Notice)
    (entries : List (Option String × α)) :
    HoldsAll entries (mergeKeyed skipped replaced entries).value ↔
      UniqueKeys (entries.map Prod.fst) := by
  constructor
  · intro h
    rw [HoldsAll, value_mergeKeyed, getD_nonempty?] at h
    refine ⟨(OrderedMap.ofBindings (keyed entries)).keys, ?_, OrderedMap.distinct_ofBindings _⟩
    rw [OrderedMap.keys, List.map_map]
    exact (congrArg (List.map Prod.fst) h).trans List.map_map
  · intro hunique
    have hkept := hunique.forall₂_keyed
    rw [← List.forall₂_map_right_iff, List.forall₂_eq_eq_eq] at hkept
    rw [HoldsAll, hunique.value_mergeKeyed, getD_nonempty?]
    exact hkept

/-- The folds of an element's children lose none of its states, transitions and invoke blocks. -/
structure LosesNothing (children : List Fragment) : Prop where
  states : HoldsAll ((Siblings.states children).map fun node => (node.id, node))
    (mergeStates children).value
  transitions : HoldsAll (Siblings.transitions children) (mergeTransitions children).value
  invokes : Siblings.invokes children = (firstInvoke? children).toList

/-- All checks of a state succeed exactly where they find no violation. -/
theorem forall_check_eq_nil_iff (checks : List Check) (children : List Fragment) :
    (∀ check ∈ checks, check children = []) ↔ violations checks children = [] := by
  rw [violations, List.flatMap_eq_nil_iff]

/-- The keys of the states are their ids. -/
theorem map_fst_states (children : List Fragment) :
    ((states children).map fun node => (node.id, node)).map Prod.fst = stateIds children := by
  rw [List.map_map]
  rfl

/-- A list is its first element exactly where it has no more. -/
theorem eq_head?_toList_iff {β : Type} (list : List β) :
    list = list.head?.toList ↔ list.length ≤ 1 := by
  cases list with
  | nil => simp
  | cons first rest => simp

/-- The checks of a state succeed exactly where the folds of its children lose nothing. -/
theorem losesNothing_iff (children : List Fragment) :
    (∀ check ∈ stateChecks, check children = []) ↔ LosesNothing children := by
  rw [forall_check_eq_nil_iff, violations_stateChecks_eq_nil_iff]
  have hstates := holdsAll_mergeKeyed_iff .stateSkipped .stateReplaced
    ((states children).map fun node => (node.id, node))
  have htransitions := holdsAll_mergeKeyed_iff .transitionSkipped .transitionReplaced
    (transitions children)
  rw [map_fst_states] at hstates
  have hinvokes := eq_head?_toList_iff (invokes children)
  constructor
  · rintro ⟨hids, hevents, hsingle⟩
    exact ⟨hstates.mpr hids, htransitions.mpr hevents, hinvokes.mpr hsingle⟩
  · rintro ⟨hids, hevents, hsingle⟩
    exact ⟨hstates.mp hids, htransitions.mp hevents, hinvokes.mp hsingle⟩

/-- Of the invoke blocks all but the first are too many. -/
theorem length_invokes (children : List Fragment) :
    (invokes children).length
      = (firstInvoke? children).toList.length
        + ((singleInvoke children).map Violation.surplus).sum := by
  rw [firstInvoke?, singleInvoke]
  generalize invokes children = blocks
  cases blocks with
  | nil => rfl
  | cons first rest =>
      cases rest with
      | nil => rfl
      | cons second others => simp [Violation.surplus, Nat.add_comm]

/-- The checks account for what the folds lose. Of the states and of the transitions, those that the
table of their fold lacks are as many as the violations say, and each has its notice. Of the invoke
blocks, all but the one that is used are too many. So all checks of a state succeed exactly where no
state, no transition and no invoke block is lost. -/
theorem checks_account_for_losses (children : List Fragment) :
    Accounts .ofStates ((states children).map fun node => (node.id, node)) (mergeStates children)
        (uniqueStateIds children) ∧
      Accounts .ofTransitions (transitions children) (mergeTransitions children)
        (uniqueEvents children) ∧
      (invokes children).length
        = (firstInvoke? children).toList.length
          + ((singleInvoke children).map Violation.surplus).sum ∧
      ((∀ check ∈ stateChecks, check children = []) ↔ LosesNothing children) := by
  have hstates := accounts_mergeKeyed .ofStates
    ((states children).map fun node => (node.id, node))
  rw [map_fst_states] at hstates
  exact ⟨hstates, accounts_mergeKeyed .ofTransitions (transitions children),
    length_invokes children, losesNothing_iff children⟩

end Siblings

end Statechart
