import DesignTokens.Fields
import Mathlib.Algebra.Order.BigOperators.Group.List
import Mathlib.Algebra.Order.Monoid.Canonical.Defs
import Mathlib.Data.List.Induction
import Mathlib.Data.List.Nodup

/-!
# Laws of ordered fields

The keys of a merge, the entries of a map whose keys are distinct, the assignment of a whole row of
entries, and a function on values, with which every operation commutes.  A row may assign one key
several times; the last laws say how much of it survives, if every value has a weight.
-/

namespace DesignTokens
namespace Fields

variable {α : Type}

/-! ## Keys -/

@[simp]
theorem keys_nil : keys ([] : Fields α) = [] := rfl

@[simp]
theorem keys_cons (entry : String × α) (fields : Fields α) :
    keys (entry :: fields) = entry.1 :: keys fields := rfl

@[simp]
theorem keys_append (left right : Fields α) : keys (left ++ right) = keys left ++ keys right :=
  List.map_append

theorem nodup_keys_cons (entry : String × α) (fields : Fields α) :
    (keys (entry :: fields)).Nodup ↔ entry.1 ∉ keys fields ∧ (keys fields).Nodup :=
  List.nodup_cons

theorem nodup_keys_singleton (entry : String × α) : (keys [entry]).Nodup :=
  List.nodup_singleton entry.1

theorem mem_keys_of_mem {fields : Fields α} {entry : String × α} (member : entry ∈ fields) :
    entry.1 ∈ keys fields :=
  List.mem_map_of_mem member

theorem has_eq_true_iff (fields : Fields α) (key : String) :
    has fields key = true ↔ key ∈ keys fields := by
  simp [has, keys]

theorem has_eq_false_iff (fields : Fields α) (key : String) :
    has fields key = false ↔ key ∉ keys fields := by
  rw [← has_eq_true_iff, Bool.not_eq_true]

theorem get?_eq_none_iff_not_mem (fields : Fields α) (key : String) :
    get? fields key = none ↔ key ∉ keys fields := by
  rw [get?_eq_none_iff, has_eq_false_iff]

theorem mem_keys_iff_exists (fields : Fields α) (key : String) :
    key ∈ keys fields ↔ ∃ value, get? fields key = some value := by
  rw [← Option.ne_none_iff_exists', ne_eq, get?_eq_none_iff_not_mem, not_not]

theorem has_eq_isSome (fields : Fields α) (key : String) :
    has fields key = (get? fields key).isSome := by
  rw [Bool.eq_iff_iff, has_eq_true_iff, mem_keys_iff_exists, Option.isSome_iff_exists]

theorem mem_of_get?_eq_some {fields : Fields α} {key : String} {value : α}
    (found : get? fields key = some value) : (key, value) ∈ fields := by
  induction fields with
  | nil => simp [get?] at found
  | cons entry rest ih =>
      by_cases same : entry.1 = key
      · simp only [get?, same, if_true, Option.some.injEq] at found
        subst same found
        exact List.mem_cons_self
      · simp only [get?, same, if_false] at found
        exact List.mem_cons_of_mem entry (ih found)

theorem get?_eq_some_of_mem {fields : Fields α} (distinct : (keys fields).Nodup)
    {entry : String × α} (member : entry ∈ fields) : get? fields entry.1 = some entry.2 := by
  induction fields with
  | nil => simp at member
  | cons head rest ih =>
      obtain ⟨fresh, distinct⟩ := (nodup_keys_cons _ _).mp distinct
      rcases List.mem_cons.mp member with rfl | member
      · simp [get?]
      · have other : head.1 ≠ entry.1 := fun same => fresh (same ▸ mem_keys_of_mem member)
        simpa [get?, other] using ih distinct member

theorem get?_filter (fields : Fields α) (keep : String → Bool) {key : String}
    (kept : keep key = true) :
    get? (fields.filter fun entry => keep entry.1) key = get? fields key := by
  induction fields with
  | nil => rfl
  | cons entry rest ih =>
      by_cases same : entry.1 = key
      · simp [get?, same, kept]
      · by_cases keeps : keep entry.1 = true <;> simp [get?, same, keeps, ih]

theorem get?_without (fields : Fields α) {key : String} {names : List String}
    (fresh : key ∉ names) : get? (without fields names) key = get? fields key :=
  get?_filter fields (fun name => !names.contains name) (by simpa using fresh)

theorem without_cons (fields : Fields α) (name : String) (names : List String) :
    without fields (name :: names) = without (without fields names) [name] := by
  simp [without, List.filter_filter]

theorem without_eq_self {fields : Fields α} {names : List String}
    (fresh : ∀ entry ∈ fields, entry.1 ∉ names) : without fields names = fields := by
  rw [without, List.filter_eq_self]
  simpa using fresh

/-! ## An entry at the end -/

theorem get?_concat {fields : Fields α} {key : String} (fresh : key ∉ keys fields) (value : α) :
    get? (fields ++ [(key, value)]) key = some value := by
  rw [get?_append, (get?_eq_none_iff_not_mem fields key).mpr fresh]
  simp [get?]

theorem without_concat (fields : Fields α) {names : List String} {key : String}
    (dropped : key ∈ names) (value : α) :
    without (fields ++ [(key, value)]) names = without fields names := by
  simp [without, dropped]

theorem put_of_not_mem {fields : Fields α} {key : String} (fresh : key ∉ keys fields) (value : α) :
    put fields key value = fields ++ [(key, value)] := by
  induction fields with
  | nil => rfl
  | cons entry fields ih =>
      rw [keys_cons, List.mem_cons, not_or] at fresh
      have different : entry.1 ≠ key := fun same => fresh.1 same.symm
      rw [put, if_neg different, ih fresh.2, List.cons_append]

/-! ## Merging -/

theorem keys_merge (left right : Fields α) :
    keys (merge left right) = keys left ++ (keys right).filter fun key => !has left key := by
  simp [merge, keys, List.filter_map, Function.comp_def]

theorem mem_keys_merge (left right : Fields α) (key : String) :
    key ∈ keys (merge left right) ↔ key ∈ keys left ∨ key ∈ keys right := by
  rw [← has_eq_true_iff, has_merge, Bool.or_eq_true, has_eq_true_iff, has_eq_true_iff]

theorem nodup_keys_merge {left right : Fields α} (distinctLeft : (keys left).Nodup)
    (distinctRight : (keys right).Nodup) : (keys (merge left right)).Nodup := by
  rw [keys_merge]
  apply List.Nodup.append distinctLeft (distinctRight.filter _)
  intro key member filtered
  have absent := (List.mem_filter.mp filtered).2
  rw [Bool.not_eq_true', has_eq_false_iff] at absent
  exact absent member

theorem map_update_eq_self {left right : Fields α}
    (disjoint : ∀ key ∈ keys left, key ∉ keys right) :
    (left.map fun entry => (entry.1, (get? right entry.1).getD entry.2)) = left := by
  have kept : ∀ entry ∈ left, (entry.1, (get? right entry.1).getD entry.2) = entry := by
    intro entry member
    rw [(get?_eq_none_iff_not_mem right entry.1).mpr (disjoint _ (mem_keys_of_mem member))]
    rfl
  rw [List.map_congr_left kept, List.map_id']

/-- Merging maps without a common key puts one behind the other. -/
theorem merge_of_disjoint {left right : Fields α}
    (disjoint : ∀ key ∈ keys left, key ∉ keys right) : merge left right = left ++ right := by
  have added : ∀ entry ∈ right, (!has left entry.1) = true := by
    intro entry member
    rw [Bool.not_eq_true', has_eq_false_iff]
    exact fun known => disjoint _ known (mem_keys_of_mem member)
  rw [merge, map_update_eq_self disjoint, List.filter_eq_self.mpr added]

/-- An entry in front of a map takes the value that the map has for its key. -/
theorem singleton_merge (entry : String × α) (fields : Fields α) :
    merge [entry] fields =
      (entry.1, (get? fields entry.1).getD entry.2) ::
        fields.filter fun other => !decide (entry.1 = other.1) := by
  simp [merge]

/-! ## Rows of assignments -/

theorem mem_keys_put (fields : Fields α) (key : String) (value : α) (name : String) :
    name ∈ keys (put fields key value) ↔ name ∈ keys fields ∨ key = name := by
  rw [← has_eq_true_iff, has_put, Bool.or_eq_true, has_eq_true_iff, decide_eq_true_iff]

theorem nodup_keys_put {fields : Fields α} (distinct : (keys fields).Nodup) (key : String)
    (value : α) : (keys (put fields key value)).Nodup := by
  induction fields with
  | nil => simp [put]
  | cons entry fields ih =>
      obtain ⟨fresh, rest⟩ := (nodup_keys_cons _ _).mp distinct
      by_cases same : entry.1 = key
      · simpa only [put, same, if_true, keys_cons] using same ▸ distinct
      · simp only [put, same, if_false, keys_cons, List.nodup_cons]
        refine ⟨?_, ih rest⟩
        rw [mem_keys_put]
        rintro (known | equal)
        · exact fresh known
        · exact same equal.symm

theorem mem_put {fields : Fields α} {key : String} {value : α} {entry : String × α}
    (member : entry ∈ put fields key value) : entry ∈ fields ∨ entry = (key, value) := by
  induction fields with
  | nil => exact .inr (List.mem_singleton.mp member)
  | cons head fields ih =>
      by_cases same : head.1 = key
      · simp only [put, same, if_true] at member
        rcases List.mem_cons.mp member with assigned | member
        · exact .inr assigned
        · exact .inl (List.mem_cons_of_mem head member)
      · simp only [put, same, if_false] at member
        rcases List.mem_cons.mp member with rfl | member
        · exact .inl List.mem_cons_self
        · exact (ih member).imp_left (List.mem_cons_of_mem head)

theorem get?_put (fields : Fields α) (key : String) (value : α) (name : String) :
    get? (put fields key value) name = if key = name then some value else get? fields name := by
  induction fields with
  | nil => rfl
  | cons entry fields ih =>
      by_cases same : entry.1 = key
      · subst same
        simp only [put, if_true, get?]
        split <;> rfl
      · simp only [put, same, if_false, get?, ih]
        by_cases found : entry.1 = name
        · have other : key ≠ name := fun equal => same (found.trans equal.symm)
          simp only [if_pos found, if_neg other]
        · simp only [if_neg found]

theorem without_put (fields : Fields α) {names : List String} {key : String}
    (dropped : key ∈ names) (value : α) :
    without (put fields key value) names = without fields names := by
  induction fields with
  | nil => simp [put, without, dropped]
  | cons entry fields ih =>
      simp only [without] at ih
      by_cases same : entry.1 = key
      · simp [put, same, without, dropped]
      · simp only [put, same, if_false, without, List.filter_cons, ih]

theorem put_eq_merge {fields : Fields α} (distinct : (keys fields).Nodup) (key : String)
    (value : α) : put fields key value = merge fields [(key, value)] := by
  induction fields with
  | nil => simp [put]
  | cons entry fields ih =>
      obtain ⟨fresh, rest⟩ := (nodup_keys_cons _ _).mp distinct
      by_cases same : entry.1 = key
      · subst same
        have disjoint : ∀ key ∈ keys fields, key ∉ keys [(entry.1, value)] := by
          intro key member
          simpa using fun same : key = entry.1 => fresh (same ▸ member)
        have kept := map_update_eq_self disjoint
        simp only [get?] at kept
        simp [put, merge, get?, kept]
      · have differs : ¬key = entry.1 := fun equal => same equal.symm
        simp only [put, same, if_false, ih rest]
        simp [merge, get?, same, differs, List.filter_cons]

theorem ofList_append_singleton (entries : List (String × α)) (entry : String × α) :
    ofList (entries ++ [entry]) = put (ofList entries) entry.1 entry.2 := by
  simp [ofList]

theorem nodup_keys_ofList (entries : List (String × α)) : (keys (ofList entries)).Nodup := by
  induction entries using List.reverseRecOn with
  | nil => simp [ofList]
  | append_singleton entries entry ih =>
      rw [ofList_append_singleton]
      exact nodup_keys_put ih entry.1 entry.2

/-- The later part of a row is assigned to the earlier one. -/
theorem ofList_append (first second : List (String × α)) :
    ofList (first ++ second) = merge (ofList first) (ofList second) := by
  induction second using List.reverseRecOn with
  | nil => simp [ofList]
  | append_singleton second entry ih =>
      have assigned : ∀ entries : List (String × α),
          ofList (entries ++ [entry]) = merge (ofList entries) [entry] := by
        intro entries
        rw [ofList_append_singleton, put_eq_merge (nodup_keys_ofList entries)]
      rw [← List.append_assoc, assigned, ih, merge_assoc, ← assigned]

theorem ofList_cons (entry : String × α) (entries : List (String × α)) :
    ofList (entry :: entries) = merge [entry] (ofList entries) :=
  ofList_append [entry] entries

/-- A value stays assigned, unless its key is assigned again. -/
theorem get?_ofList_of_split (earlier : List (String × α)) (entry : String × α)
    (later : List (String × α)) :
    get? (ofList (earlier ++ entry :: later)) entry.1 = some entry.2 ∨
      ∃ other ∈ later, other.1 = entry.1 := by
  induction later using List.reverseRecOn with
  | nil =>
      rw [ofList_append_singleton, get?_put, if_pos rfl]
      exact .inl rfl
  | append_singleton later last ih =>
      rw [← List.cons_append, ← List.append_assoc, ofList_append_singleton, get?_put]
      by_cases again : last.1 = entry.1
      · exact .inr ⟨last, List.mem_append_right _ (List.mem_singleton_self last), again⟩
      · rw [if_neg again]
        exact ih.imp_right fun ⟨other, listed, same⟩ => ⟨other, List.mem_append_left _ listed, same⟩

theorem mem_keys_ofList (entries : List (String × α)) (key : String) :
    key ∈ keys (ofList entries) ↔ key ∈ keys entries := by
  induction entries with
  | nil => simp [ofList]
  | cons entry entries ih => simp [ofList_cons, mem_keys_merge, ih]

theorem mem_of_mem_ofList {entries : List (String × α)} {entry : String × α}
    (member : entry ∈ ofList entries) : entry ∈ entries := by
  induction entries using List.reverseRecOn with
  | nil => exact member
  | append_singleton entries last ih =>
      rw [ofList_append_singleton] at member
      rcases mem_put member with earlier | rfl
      · exact List.mem_append_left _ (ih earlier)
      · exact List.mem_append_right _ (List.mem_singleton_self _)

/-- A row that assigns no key twice is the map itself. -/
theorem ofList_eq_self {entries : List (String × α)} (distinct : (keys entries).Nodup) :
    ofList entries = entries := by
  induction entries with
  | nil => rfl
  | cons entry entries ih =>
      obtain ⟨fresh, distinct⟩ := (nodup_keys_cons _ _).mp distinct
      rw [ofList_cons, ih distinct]
      apply merge_of_disjoint
      simpa only [keys_cons, keys_nil, List.forall_mem_singleton] using fresh

/-! ## Values -/

variable {β : Type}

/-- The fields with a function applied to every value. -/
def mapValues (f : α → β) (fields : Fields α) : Fields β :=
  fields.map fun entry => (entry.1, f entry.2)

@[simp]
theorem mapValues_nil (f : α → β) : mapValues f [] = [] := rfl

@[simp]
theorem mapValues_cons (f : α → β) (entry : String × α) (fields : Fields α) :
    mapValues f (entry :: fields) = (entry.1, f entry.2) :: mapValues f fields := rfl

@[simp]
theorem mapValues_append (f : α → β) (left right : Fields α) :
    mapValues f (left ++ right) = mapValues f left ++ mapValues f right :=
  List.map_append

@[simp]
theorem keys_mapValues (f : α → β) (fields : Fields α) : keys (mapValues f fields) = keys fields :=
  List.map_map

@[simp]
theorem isEmpty_mapValues (f : α → β) (fields : Fields α) :
    (mapValues f fields).isEmpty = fields.isEmpty :=
  List.isEmpty_map

theorem mapValues_eq_self {f : α → α} {fields : Fields α}
    (fixed : ∀ entry ∈ fields, f entry.2 = entry.2) : mapValues f fields = fields := by
  have same : ∀ entry ∈ fields, (entry.1, f entry.2) = entry :=
    fun entry member => Prod.ext rfl (fixed entry member)
  exact (List.map_congr_left same).trans (List.map_id fields)

@[simp]
theorem has_mapValues (f : α → β) (fields : Fields α) (key : String) :
    has (mapValues f fields) key = has fields key := by
  simp [has, mapValues, Function.comp_def]

theorem get?_map (f : String → α → β) (fields : Fields α) (key : String) :
    get? (fields.map fun entry => (entry.1, f entry.1 entry.2)) key =
      (get? fields key).map (f key) := by
  induction fields with
  | nil => rfl
  | cons entry rest ih =>
      by_cases same : entry.1 = key
      · subst same
        simp [get?]
      · simp [get?, same, ih]

theorem get?_mapValues (f : α → β) (fields : Fields α) (key : String) :
    get? (mapValues f fields) key = (get? fields key).map f :=
  get?_map (fun _ => f) fields key

theorem put_mapValues (f : α → β) (fields : Fields α) (key : String) (value : α) :
    put (mapValues f fields) key (f value) = mapValues f (put fields key value) := by
  induction fields with
  | nil => rfl
  | cons entry rest ih =>
      simp only [mapValues_cons, put, ih]
      split <;> rfl

theorem merge_mapValues (f : α → β) (left right : Fields α) :
    merge (mapValues f left) (mapValues f right) = mapValues f (merge left right) := by
  have updated : ∀ entry : String × α,
      (get? (mapValues f right) entry.1).getD (f entry.2) =
        f ((get? right entry.1).getD entry.2) := by
    intro entry
    rw [get?_mapValues, Option.getD_map]
  rw [merge, merge, mapValues_append]
  congr 1
  · simp only [mapValues, List.map_map]
    exact List.map_congr_left fun entry _ => Prod.ext rfl (updated entry)
  · simp only [has_mapValues]
    exact List.filter_map

/-! ## Weights -/

section Weight

variable {M : Type} [AddCommMonoid M]

/-- The weight of all values together. -/
def total (weight : α → M) (fields : Fields α) : M := (fields.map fun entry => weight entry.2).sum

@[simp]
theorem total_nil (weight : α → M) : total weight [] = 0 := rfl

@[simp]
theorem total_cons (weight : α → M) (entry : String × α) (fields : Fields α) :
    total weight (entry :: fields) = weight entry.2 + total weight fields :=
  List.sum_cons

@[simp]
theorem total_append (weight : α → M) (left right : Fields α) :
    total weight (left ++ right) = total weight left + total weight right := by
  simp [total]

theorem total_filter_ne (weight : α → M) {fields : Fields α} (distinct : (keys fields).Nodup)
    {key : String} {value : α} (found : get? fields key = some value) :
    weight value + total weight (fields.filter fun entry => !decide (key = entry.1)) =
      total weight fields := by
  induction fields with
  | nil => simp [get?] at found
  | cons entry fields ih =>
      obtain ⟨fresh, distinct⟩ := (nodup_keys_cons _ _).mp distinct
      by_cases same : entry.1 = key
      · subst same
        have others : ∀ other ∈ fields, (!decide (entry.1 = other.1)) = true := by
          intro other member
          simpa using fun same : entry.1 = other.1 => fresh (same ▸ mem_keys_of_mem member)
        simp only [get?, if_true, Option.some.injEq] at found
        simp [List.filter_eq_self.mpr others, found]
      · simp only [get?, same, if_false] at found
        have differs : ¬key = entry.1 := fun equality => same equality.symm
        simp [differs, ← ih distinct found, add_left_comm]

/-- In front of a row, an assignment counts unless its key is assigned again. -/
theorem total_ofList_cons (weight : α → M) (entry : String × α) (entries : List (String × α)) :
    total weight (ofList (entry :: entries)) =
      (if entry.1 ∈ keys entries then 0 else weight entry.2) + total weight (ofList entries) := by
  rw [ofList_cons]
  by_cases again : entry.1 ∈ keys entries
  · have assigned : entry.1 ∈ keys (ofList entries) := (mem_keys_ofList entries entry.1).mpr again
    obtain ⟨value, found⟩ : ∃ value, get? (ofList entries) entry.1 = some value := by
      rw [← Option.ne_none_iff_exists', ne_eq, get?_eq_none_iff_not_mem]
      exact not_not_intro assigned
    rw [singleton_merge, found]
    simp [again, total_filter_ne weight (nodup_keys_ofList entries) found]
  · have fresh : entry.1 ∉ keys (ofList entries) := by rwa [mem_keys_ofList]
    rw [merge_of_disjoint (by simpa using fresh)]
    simp [again]

variable [PartialOrder M] [IsOrderedCancelAddMonoid M] [CanonicallyOrderedAdd M]

theorem total_ofList_le (weight : α → M) (entries : List (String × α)) :
    total weight (ofList entries) ≤ total weight entries := by
  induction entries with
  | nil => simp [ofList]
  | cons entry entries ih =>
      rw [total_ofList_cons, total_cons]
      apply add_le_add _ ih
      split
      · exact zero_le
      · exact le_rfl

/-- A row of assignments loses nothing exactly if every value that is assigned over has no
weight. -/
theorem total_ofList_eq_iff (weight : α → M) (entries : List (String × α)) :
    total weight (ofList entries) = total weight entries ↔
      entries.Pairwise fun first second => first.1 = second.1 → weight first.2 = 0 := by
  induction entries with
  | nil => simp [ofList]
  | cons entry entries ih =>
      have front : (if entry.1 ∈ keys entries then 0 else weight entry.2) ≤ weight entry.2 := by
        split
        · exact zero_le
        · exact le_rfl
      rw [total_ofList_cons, total_cons,
        add_eq_add_iff_eq_and_eq front (total_ofList_le weight entries), ih, List.pairwise_cons]
      apply and_congr_left'
      constructor
      · intro kept second member same
        rw [if_pos (same ▸ mem_keys_of_mem member)] at kept
        exact kept.symm
      · intro lost
        split
        · rename_i again
          obtain ⟨second, member, same⟩ := List.mem_map.mp again
          exact (lost second member same.symm).symm
        · rfl

theorem total_merge_le (weight : α → M) {left right : Fields α}
    (distinctLeft : (keys left).Nodup) (distinctRight : (keys right).Nodup) :
    total weight (merge left right) ≤ total weight left + total weight right := by
  rw [← ofList_eq_self distinctLeft, ← ofList_eq_self distinctRight, ← ofList_append,
    ofList_eq_self distinctLeft, ofList_eq_self distinctRight, ← total_append]
  exact total_ofList_le weight (left ++ right)

/-- If a merge loses no weight although every value has some, nothing was assigned over. -/
theorem merge_eq_append_of_total_le {weight : α → M} (positive : ∀ value, weight value ≠ 0)
    {left right : Fields α} (distinctLeft : (keys left).Nodup) (distinctRight : (keys right).Nodup)
    (kept : total weight left + total weight right ≤ total weight (merge left right)) :
    merge left right = left ++ right := by
  have assigned : ofList (left ++ right) = merge left right := by
    rw [ofList_append, ofList_eq_self distinctLeft, ofList_eq_self distinctRight]
  have same : total weight (ofList (left ++ right)) = total weight (left ++ right) := by
    apply (total_ofList_le weight (left ++ right)).antisymm
    rwa [assigned, total_append]
  rw [total_ofList_eq_iff] at same
  obtain ⟨-, -, across⟩ := List.pairwise_append.mp same
  apply merge_of_disjoint
  intro key memberLeft memberRight
  obtain ⟨first, inLeft, firstKey⟩ := List.mem_map.mp memberLeft
  obtain ⟨second, inRight, secondKey⟩ := List.mem_map.mp memberRight
  exact positive _ (across first inLeft second inRight (firstKey.trans secondKey.symm))

/-! ## Shares -/

omit [PartialOrder M] [IsOrderedCancelAddMonoid M] [CanonicallyOrderedAdd M]

/-- The weight of all entries together, keys and all. -/
def measure (weight : String × α → M) (fields : Fields α) : M := (fields.map weight).sum

/-- The weight of the entry called `key`, if there is one. -/
def share (weight : String × α → M) (fields : Fields α) (key : String) : M :=
  match get? fields key with
  | some value => weight (key, value)
  | none => 0

@[simp]
theorem measure_nil (weight : String × α → M) : measure weight [] = 0 := rfl

@[simp]
theorem measure_cons (weight : String × α → M) (entry : String × α) (fields : Fields α) :
    measure weight (entry :: fields) = weight entry + measure weight fields :=
  List.sum_cons

theorem sum_shares_nil (weight : String × α → M) (keys : List String) :
    (keys.map (share weight [])).sum = 0 := by
  apply List.sum_eq_zero
  simp [share, get?]

theorem share_of_get? (weight : String × α → M) {fields : Fields α} {key : String} {value : α}
    (found : get? fields key = some value) : share weight fields key = weight (key, value) := by
  rw [share, found]

variable [PartialOrder M] [IsOrderedCancelAddMonoid M] [CanonicallyOrderedAdd M]

theorem measure_without_le (weight : String × α → M) (fields : Fields α) (keys : List String) :
    measure weight (without fields keys) ≤ measure weight fields :=
  (List.filter_sublist.map weight).sum_le_sum fun _ _ => zero_le

theorem share_add_measure_without_le (weight : String × α → M) (fields : Fields α) (key : String) :
    share weight fields key + measure weight (without fields [key]) ≤ measure weight fields := by
  induction fields with
  | nil => simp [share, get?, without]
  | cons entry rest ih =>
      by_cases same : entry.1 = key
      · subst same
        have found : get? (entry :: rest) entry.1 = some entry.2 := by simp [get?]
        have dropped : without (entry :: rest) [entry.1] = without rest [entry.1] := by
          simp [without]
        rw [share_of_get? weight found, dropped, measure_cons]
        exact add_le_add_right (measure_without_le weight rest [entry.1]) _
      · have found : share weight (entry :: rest) key = share weight rest key := by
          simp [share, get?, same]
        have kept : without (entry :: rest) [key] = entry :: without rest [key] := by
          simp [without, same]
        rw [found, kept, measure_cons, measure_cons, add_left_comm]
        exact add_le_add_right ih _

/-- Some entries and what is left without them weigh no more than all entries. -/
theorem shares_add_measure_without_le (weight : String × α → M) (fields : Fields α)
    {keys : List String} (distinct : keys.Nodup) :
    (keys.map (share weight fields)).sum + measure weight (without fields keys) ≤
      measure weight fields := by
  induction keys with
  | nil => simp [without]
  | cons key keys ih =>
      obtain ⟨fresh, distinct⟩ := List.nodup_cons.mp distinct
      have same : share weight (without fields keys) key = share weight fields key := by
        rw [share, share, get?_without fields fresh]
      have split := share_add_measure_without_le weight (without fields keys) key
      rw [same, ← without_cons] at split
      calc
        ((key :: keys).map (share weight fields)).sum +
            measure weight (without fields (key :: keys))
          = (keys.map (share weight fields)).sum +
              (share weight fields key + measure weight (without fields (key :: keys))) := by
            rw [List.map_cons, List.sum_cons, add_assoc, add_left_comm]
        _ ≤ (keys.map (share weight fields)).sum + measure weight (without fields keys) :=
            add_le_add_right split _
        _ ≤ measure weight fields := ih distinct

end Weight

end Fields
end DesignTokens
