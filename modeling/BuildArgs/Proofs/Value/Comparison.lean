import BuildArgs.Proofs.Value.Bare

/-! The laws of comparing values. The order is that of keys, the lists of marks that values are
written as, so it has the laws of comparing lists. -/

namespace BuildArgs.Value

/-! Order -/

theorem orderItems_eq_iff {items others : List Value}
    (each : ∀ item ∈ items, ∀ other, item.order other = .eq ↔ item.bare = other.bare) :
    orderItems items others = .eq ↔ bareItems items = bareItems others := by
  induction items generalizing others with
  | nil => cases others <;> simp [orderItems, bareItems]
  | cons item rest ih =>
    obtain ⟨first, later⟩ := List.forall_mem_cons.mp each
    cases others with
    | nil => simp [orderItems, bareItems]
    | cons other others => simp [orderItems, bareItems, Ordering.then_eq_eq, first, ih later]

theorem orderEntries_eq_iff {entries others : List (String × Value)}
    (each : ∀ entry ∈ entries, ∀ other, entry.2.order other = .eq ↔ entry.2.bare = other.bare) :
    orderEntries entries others = .eq ↔ bareEntries entries = bareEntries others := by
  induction entries generalizing others with
  | nil => cases others <;> simp [orderEntries, bareEntries]
  | cons entry rest ih =>
    obtain ⟨first, later⟩ := List.forall_mem_cons.mp each
    cases others with
    | nil => simp [orderEntries, bareEntries]
    | cons other others =>
      simp [orderEntries, bareEntries, Ordering.then_eq_eq, first, ih later, and_assoc]

theorem order_eq_iff {left right : Value} : left.order right = .eq ↔ left.bare = right.bare := by
  induction left using Value.induction generalizing right with
  | list origin items each =>
    cases right with
    | list => simpa [order, bare] using orderItems_eq_iff fun item member other => each item member
    | _ => simp [order, bare, rank]
  | scope origin entries each =>
    cases right with
    | scope =>
      simpa [order, bare] using orderEntries_eq_iff fun entry member other => each entry member
    | _ => simp [order, bare, rank]
  | _ => cases right <;> simp [order, bare, rank, Int64.toInt_inj]

/-- A mark of a key. Marks are compared by their rank, then by their number, then by their name. -/
structure Mark where
  rank : Nat
  number : Int
  name : String

namespace Mark

def order : Mark → Mark → Ordering :=
  compareLex (compareOn rank) (compareLex (compareOn number) (compareOn name))

instance : Std.TransCmp order :=
  inferInstanceAs (Std.TransCmp (compareLex _ (compareLex _ _)))

def ofRank (rank : Nat) : Mark := ⟨rank, 0, ""⟩

def part (name : String) : Mark := ⟨1, 0, name⟩

def last : Mark := ofRank 0

end Mark

mutual

/-- The key of a value: its rank and contents, or its rank and the keys of its parts. -/
def key : Value → List Mark
  | .none _ => [.ofRank 0]
  | .boolean _ value => [⟨1, value.toInt, ""⟩]
  | .integer _ value => [⟨2, value.toInt, ""⟩]
  | .string _ value => [⟨3, 0, value⟩]
  | .list _ items => .ofRank 4 :: itemsKey items
  | .scope _ entries => .ofRank 5 :: entriesKey entries

def itemsKey : List Value → List Mark
  | [] => [.last]
  | item :: rest => .part "" :: (item.key ++ itemsKey rest)

def entriesKey : List (String × Value) → List Mark
  | [] => [.last]
  | (name, value) :: rest => .part name :: (value.key ++ entriesKey rest)

end

def orderKeys : List Mark → List Mark → Ordering := List.compareLex Mark.order

instance : Std.TransCmp orderKeys := inferInstanceAs (Std.TransCmp (List.compareLex Mark.order))

theorem orderKeys_cons (mark other : Mark) (marks others : List Mark) :
    orderKeys (mark :: marks) (other :: others) =
      (mark.order other).then (orderKeys marks others) :=
  List.compareLex_cons_cons

@[simp] theorem orderKeys_part (name other : String) (marks others : List Mark) :
    orderKeys (.part name :: marks) (.part other :: others) =
      (compare name other).then (orderKeys marks others) :=
  orderKeys_cons _ _ _ _

/-- Whether the keys of two values compare as the values do, what follows them only for a tie. -/
def Decides (left right : Value) : Prop :=
  ∀ after later, orderKeys (left.key ++ after) (right.key ++ later) =
    (left.order right).then (orderKeys after later)

theorem orderKeys_itemsKey {items others : List Value}
    (each : ∀ item ∈ items, ∀ other, item.Decides other) (after later : List Mark) :
    orderKeys (itemsKey items ++ after) (itemsKey others ++ later) =
      (orderItems items others).then (orderKeys after later) := by
  induction items generalizing others with
  | nil => cases others <;> rfl
  | cons item rest ih =>
    obtain ⟨first, rest⟩ := List.forall_mem_cons.mp each
    cases others with
    | nil => rfl
    | cons other others =>
      simp [itemsKey, orderItems, first other _ _, ih rest, Ordering.then_assoc]

theorem orderKeys_entriesKey {entries others : List (String × Value)}
    (each : ∀ entry ∈ entries, ∀ other, entry.2.Decides other) (after later : List Mark) :
    orderKeys (entriesKey entries ++ after) (entriesKey others ++ later) =
      (orderEntries entries others).then (orderKeys after later) := by
  induction entries generalizing others with
  | nil => cases others <;> rfl
  | cons entry rest ih =>
    obtain ⟨first, rest⟩ := List.forall_mem_cons.mp each
    cases others with
    | nil => rfl
    | cons other others =>
      simp [entriesKey, orderEntries, first other.2 _ _, ih rest, Ordering.then_assoc]

theorem decides (left right : Value) : left.Decides right := by
  induction left using Value.induction generalizing right with
  | list origin items each =>
    intro after later
    cases right with
    | list _ others =>
      exact orderKeys_itemsKey (fun item member other => each item member other) after later
    | _ => rfl
  | scope origin entries each =>
    intro after later
    cases right with
    | scope _ others =>
      exact orderKeys_entriesKey (fun entry member other => each entry member other) after later
    | _ => rfl
  | boolean origin value =>
    intro after later
    cases right with
    | boolean _ other => cases value <;> cases other <;> rfl
    | _ => rfl
  | integer origin value =>
    intro after later
    cases right with
    | integer _ other => simp [key, orderKeys_cons, Mark.order, order, compareLex, compareOn]
    | _ => rfl
  | string origin value =>
    intro after later
    cases right with
    | string _ other => simp [key, orderKeys_cons, Mark.order, order, compareLex, compareOn]
    | _ => rfl
  | none origin =>
    intro after later
    cases right <;> rfl

theorem compare_eq_orderKeys (left right : Value) :
    compare left right = orderKeys left.key right.key := by
  have decided := decides left right [] []
  rw [List.append_nil, List.append_nil] at decided
  rw [decided, orderKeys, List.compareLex_nil_nil, Ordering.then_eq]
  rfl

instance : Std.TransOrd Value where
  eq_swap {left right} := by
    rw [compare_eq_orderKeys, compare_eq_orderKeys]
    exact Std.OrientedCmp.eq_swap
  isLE_trans {first second third} below above := by
    rw [compare_eq_orderKeys] at below above ⊢
    exact Std.TransCmp.isLE_trans below above

instance : Std.LawfulBEqOrd Value where
  compare_eq_iff_beq := order_eq_iff.trans beq_iff.symm

mutual

theorem key_bare : ∀ value : Value, value.bare.key = value.key
  | .none _ | .boolean _ _ | .integer _ _ | .string _ _ => rfl
  | .list _ items => congrArg (_ :: ·) (itemsKey_bareItems items)
  | .scope _ entries => congrArg (_ :: ·) (entriesKey_bareEntries entries)

theorem itemsKey_bareItems : ∀ items, itemsKey (bareItems items) = itemsKey items
  | [] => rfl
  | item :: rest => by
    rw [bareItems, itemsKey, itemsKey, key_bare item, itemsKey_bareItems rest]

theorem entriesKey_bareEntries : ∀ entries, entriesKey (bareEntries entries) = entriesKey entries
  | [] => rfl
  | (name, value) :: rest => by
    rw [bareEntries, entriesKey, entriesKey, key_bare value, entriesKey_bareEntries rest]

end

theorem compare_congr {left other right another : Value} (first : left.bare = other.bare)
    (second : right.bare = another.bare) : compare left right = compare other another := by
  rw [compare_eq_orderKeys, compare_eq_orderKeys, ← key_bare left, ← key_bare right, first, second,
    key_bare, key_bare]

/-! Hash -/

mutual

theorem hashData_bare : ∀ value : Value, value.bare.hashData = value.hashData
  | .none _ | .boolean _ _ | .integer _ _ | .string _ _ => rfl
  | .list _ items => by
    rw [bare, hashData, hashData, hashItems_bareItems items, bareItems_eq_map, List.length_map]
  | .scope _ entries => by
    rw [bare, hashData, hashData, hashEntries_bareEntries entries, bareEntries_eq_map,
      List.length_map]

theorem hashItems_bareItems : ∀ items, hashItems (bareItems items) = hashItems items
  | [] => rfl
  | item :: rest => by
    rw [bareItems, hashItems, hashItems, hashData_bare item, hashItems_bareItems rest]

theorem hashEntries_bareEntries : ∀ entries, hashEntries (bareEntries entries) = hashEntries entries
  | [] => rfl
  | (name, value) :: rest => by
    rw [bareEntries, hashEntries, hashEntries, hashData_bare value, hashEntries_bareEntries rest]

end

theorem hashData_congr {left right : Value} (same : left.bare = right.bare) :
    left.hashData = right.hashData := by
  rw [← hashData_bare left, ← hashData_bare right, same]

/-! Sorting -/

theorem isLE_total (left right : Value) :
    (compare left right).isLE = true ∨ (compare right left).isLE = true := by
  rw [Std.OrientedOrd.eq_swap (a := right)]
  cases compare left right <;> simp

theorem isLE_trans (first second third : Value) (below : (first.order second).isLE = true)
    (above : (second.order third).isLE = true) : (first.order third).isLE = true :=
  Std.TransOrd.isLE_trans (α := Value) below above

theorem isLE_or_isLE (left right : Value) :
    ((left.order right).isLE || (right.order left).isLE) = true :=
  Bool.or_eq_true_iff.mpr (isLE_total left right)

theorem pairwise_sort (values : List Value) :
    (sort values).Pairwise fun left right => (compare left right).isLE = true :=
  List.pairwise_mergeSort isLE_trans isLE_or_isLE values

theorem filter_sort (value : Value) (values : List Value) :
    (sort values).filter (· == value) = values.filter (· == value) := by
  have equal : (values.filter (· == value)).Pairwise fun left right => (left.order right).isLE := by
    refine List.pairwise_of_forall_mem_list fun left first right second => ?_
    have same : left.bare = right.bare :=
      (beq_iff.mp (List.mem_filter.mp first).2).trans (beq_iff.mp (List.mem_filter.mp second).2).symm
    exact Ordering.isLE_of_eq_eq (order_eq_iff.mpr same)
  have inside : (values.filter (· == value)).Sublist (sort values) :=
    List.sublist_mergeSort isLE_trans isLE_or_isLE equal List.filter_sublist
  have among := inside.filter (· == value)
  simp only [List.filter_filter, Bool.and_self] at among
  exact (among.eq_of_length ((List.mergeSort_perm _ _).filter _).length_eq.symm).symm

/-- Whether a list has given values in order, equal ones as they were given. -/
structure SortsStably (values sorted : List Value) : Prop where
  perm : sorted.Perm values
  ascending : sorted.Pairwise fun left right => (compare left right).isLE
  stable : ∀ value, sorted.filter (· == value) = values.filter (· == value)

theorem sortsStably_sort (values : List Value) : SortsStably values (sort values) where
  perm := List.mergeSort_perm _ _
  ascending := pairwise_sort values
  stable value := filter_sort value values

theorem isLE_head {first : Value} {rest : List Value} {value : Value}
    (ascending : (first :: rest).Pairwise fun left right => (compare left right).isLE)
    (member : value ∈ first :: rest) : (compare first value).isLE = true := by
  rcases List.mem_cons.mp member with rfl | later
  · exact Std.ReflOrd.isLE_rfl
  · exact List.rel_of_pairwise_cons ascending later

theorem eq_of_sorted {left right : List Value} (perm : left.Perm right)
    (first : left.Pairwise fun one other => (compare one other).isLE)
    (second : right.Pairwise fun one other => (compare one other).isLE)
    (stable : ∀ value, left.filter (· == value) = right.filter (· == value)) : left = right := by
  induction left generalizing right with
  | nil => exact perm.nil_eq
  | cons least rest ih =>
    cases right with
    | nil => exact perm.eq_nil
    | cons other others =>
      have below := isLE_head first (perm.mem_iff.mpr List.mem_cons_self)
      have above := isLE_head second (perm.mem_iff.mp List.mem_cons_self)
      have tie : (other == least) = true :=
        Std.LawfulBEqOrd.compare_eq_iff_beq.mp (Std.OrientedCmp.isLE_antisymm above below)
      have self : (least == least) = true := same_self least
      have heads := stable least
      simp only [List.filter_cons, self, tie, ↓reduceIte, List.cons.injEq] at heads
      obtain ⟨rfl, _⟩ := heads
      refine congrArg (least :: ·) (ih perm.cons_inv first.of_cons second.of_cons fun value => ?_)
      have whole := stable value
      rw [List.filter_cons, List.filter_cons] at whole
      split at whole
      · exact List.cons.inj whole |>.2
      · exact whole

theorem sortsStably_iff {values sorted : List Value} :
    SortsStably values sorted ↔ sorted = sort values := by
  constructor
  · intro sorts
    have sorted := sortsStably_sort values
    exact eq_of_sorted (sorts.perm.trans sorted.perm.symm) sorts.ascending sorted.ascending
      fun value => (sorts.stable value).trans (sorted.stable value).symm
  · rintro rfl
    exact sortsStably_sort values

/-- Comparing is a lawful total preorder whose ties are the equal values, equal values give a hash
function the same data, and none of the three looks at origins, at any depth. Sorting therefore
leaves one result: the values in order, equal ones as they were given. -/
theorem comparison_lawful :
    (∀ value : Value, compare value value = .eq) ∧
    (∀ left right : Value, compare right left = (compare left right).swap) ∧
    (∀ left right : Value, (compare left right).isLE → (compare right left).isLE → left == right) ∧
    (∀ first second third : Value, (compare first second).isLE → (compare second third).isLE →
      (compare first third).isLE) ∧
    (∀ left right : Value, (compare left right).isLE ∨ (compare right left).isLE) ∧
    (∀ left right : Value, compare left right = .eq ↔ left == right) ∧
    (∀ left right : Value, left == right → left.hashData = right.hashData) ∧
    (∀ left other right another : Value, left.bare = other.bare → right.bare = another.bare →
      (left == right) = (other == another) ∧ compare left right = compare other another ∧
        left.hashData = other.hashData) ∧
    ∀ values sorted, SortsStably values sorted ↔ sorted = sort values := by
  refine ⟨fun _ => Std.ReflOrd.compare_self, fun _ _ => Std.OrientedOrd.eq_swap, ?_,
    fun _ _ _ => Std.TransOrd.isLE_trans, isLE_total, ?_, ?_, ?_, fun _ _ => sortsStably_iff⟩
  · intro left right below above
    exact Std.LawfulBEqOrd.compare_eq_iff_beq.mp (Std.OrientedCmp.isLE_antisymm below above)
  · exact fun _ _ => Std.LawfulBEqOrd.compare_eq_iff_beq
  · exact fun _ _ same => hashData_congr (beq_iff.mp same)
  · exact fun _ _ _ _ first second =>
      ⟨beq_congr first second, compare_congr first second, hashData_congr first⟩

end BuildArgs.Value
