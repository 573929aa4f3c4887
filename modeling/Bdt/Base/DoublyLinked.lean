import Mathlib.Data.List.Induction
import Mathlib.Data.List.Nodup

/-!
# Doubly linked lists

The macros for lists whose elements have a pointer to the next and to the previous one. The pointers of
all elements are in one `Links`, and `join` writes that one element follows another. A list is given by
a pointer to one of its elements, which `addAfter` and `addBefore` leave where it is.

`Linked links before l after` says that the elements of `l` follow each other, from what is before them
to what is after them. `IsList links list l` says that the pointer `list` is to the first element of
`l`, which ends with the null pointer on both sides. The rules say what the macros do to the list.
-/

namespace Bdt.Base

open List Option

variable {ι : Type*} [DecidableEq ι]

/-- The pointers of the elements. -/
structure Links (ι : Type*) where
  next : ι → Option ι := fun _ => none
  previous : ι → Option ι := fun _ => none

namespace Links

/-- Let one element follow another; the null pointer has no members to write to. -/
def join (links : Links ι) (previous next : Option ι) : Links ι where
  next x := if previous = some x then next else links.next x
  previous y := if next = some y then previous else links.previous y

/-- `SGLIB_DL_LIST_ADD_AFTER`. -/
def addAfter (links : Links ι) (place : Option ι) (elem : ι) : Links ι × Option ι :=
  match place with
  | none => ((links.join none (some elem)).join (some elem) none, some elem)
  | some node => ((links.join (some elem) (links.next node)).join place (some elem), place)

/-- `SGLIB_DL_LIST_ADD_BEFORE`. -/
def addBefore (links : Links ι) (place : Option ι) (elem : ι) : Links ι × Option ι :=
  match place with
  | none => ((links.join none (some elem)).join (some elem) none, some elem)
  | some node => ((links.join (links.previous node) (some elem)).join (some elem) place, place)

/-- `SGLIB_DL_LIST_ADD`. -/
def add (links : Links ι) (list : Option ι) (elem : ι) : Links ι × Option ι :=
  ((links.addBefore list elem).1, some elem)

/-- `SGLIB_DL_LIST_DELETE`. -/
def delete (links : Links ι) (list : Option ι) (elem : ι) : Links ι × Option ι :=
  (links.join (links.previous elem) (links.next elem),
    if list = some elem then (links.previous elem).or (links.next elem) else list)

/-- The elements that pointers lead to, one after the other. -/
def walk (pointer : ι → Option ι) : Nat → Option ι → List ι
  | 0, _ => []
  | _ + 1, none => []
  | fuel + 1, some x => x :: walk pointer fuel (pointer x)

/-- One element follows another. -/
def Joined (links : Links ι) (previous next : Option ι) : Prop :=
  (∀ x, previous = some x → links.next x = next) ∧ ∀ y, next = some y → links.previous y = previous

/-- The elements follow each other. -/
def Linked (links : Links ι) (before : Option ι) : List ι → Option ι → Prop
  | [], after => links.Joined before after
  | x :: xs, after => links.Joined before (some x) ∧ Linked links (some x) xs after

/-- The list that a pointer is to. -/
structure IsList (links : Links ι) (list : Option ι) (l : List ι) : Prop where
  linked : links.Linked none l none
  nodup : l.Nodup
  head : list = l.head?

variable {links : Links ι} {before after p n list : Option ι} {xs ys l : List ι} {x y : ι}

/-! ## Elements that follow each other -/

omit [DecidableEq ι] in
theorem linked_append :
    links.Linked before (xs ++ y :: ys) after ↔
      links.Linked before xs (some y) ∧ links.Linked (some y) ys after := by
  induction xs generalizing before with
  | nil => exact Iff.rfl
  | cons x xs ih =>
    show _ ∧ links.Linked (some x) (xs ++ y :: ys) after ↔ (_ ∧ _) ∧ _
    rw [ih, and_assoc]

omit [DecidableEq ι] in
theorem Linked.last (h : links.Linked before xs after) : links.Joined (xs.getLast?.or before) after := by
  induction xs generalizing before with
  | nil => exact h
  | cons _ xs ih =>
    rw [getLast?_cons]
    refine cast ?_ (ih h.2)
    cases xs.getLast? <;> rfl

omit [DecidableEq ι] in
theorem Linked.first (h : links.Linked before xs after) : links.Joined before (xs.head?.or after) := by
  cases xs with
  | nil => exact h
  | cons => exact h.1

omit [DecidableEq ι] in
theorem Linked.previous (h : links.Linked before (xs ++ x :: ys) after) :
    links.previous x = xs.getLast?.or before :=
  (linked_append.mp h).1.last.2 x rfl

omit [DecidableEq ι] in
theorem Linked.next (h : links.Linked before (xs ++ x :: ys) after) :
    links.next x = ys.head?.or after :=
  (linked_append.mp h).2.first.1 x rfl

theorem joined_join (links : Links ι) (p n : Option ι) : (links.join p n).Joined p n :=
  ⟨fun _ h => if_pos h, fun _ h => if_pos h⟩

theorem Joined.join (h : links.Joined before after) (hp : ∀ x, p = some x → before ≠ some x)
    (hn : ∀ y, n = some y → after ≠ some y) : (links.join p n).Joined before after := by
  refine ⟨fun x hx => (if_neg fun heq => ?_).trans (h.1 x hx),
    fun y hy => (if_neg fun heq => ?_).trans (h.2 y hy)⟩
  · exact hp x heq hx
  · exact hn y heq hy

theorem Linked.join (h : links.Linked before l after)
    (hp : ∀ x, p = some x → before ≠ some x ∧ x ∉ l)
    (hn : ∀ y, n = some y → after ≠ some y ∧ y ∉ l) : (links.join p n).Linked before l after := by
  induction l generalizing before with
  | nil => exact Joined.join h (fun x hx => (hp x hx).1) fun y hy => (hn y hy).1
  | cons first rest ih =>
    have hfirst : ∀ z, z ∉ first :: rest → some first ≠ some z :=
      fun z hz heq => hz (some.inj heq ▸ mem_cons_self)
    refine ⟨Joined.join h.1 (fun x hx => (hp x hx).1) fun y hy => hfirst y (hn y hy).2, ih h.2 ?_ ?_⟩
    · intro x hx
      exact ⟨hfirst x (hp x hx).2, fun hmem => (hp x hx).2 (mem_cons_of_mem _ hmem)⟩
    · intro y hy
      exact ⟨(hn y hy).1, fun hmem => (hn y hy).2 (mem_cons_of_mem _ hmem)⟩

/-- What the last element is followed by is written. -/
theorem Linked.join_last (h : links.Linked before l after) (hnodup : l.Nodup)
    (hbefore : ∀ x, before = some x → x ∉ l) (hn : ∀ y, n = some y → y ∉ l) :
    (links.join (l.getLast?.or before) n).Linked before l n := by
  induction l generalizing before with
  | nil => exact joined_join ..
  | cons first rest ih =>
    obtain ⟨hfirst, hrest⟩ := nodup_cons.mp hnodup
    have hlast : ((first :: rest).getLast?.or before) = rest.getLast?.or (some first) := by
      rw [getLast?_cons]
      cases rest.getLast? <;> rfl
    rw [hlast]
    refine ⟨Joined.join h.1 ?_ ?_, ih h.2 hrest ?_ ?_⟩
    · intro x hx heq
      -- the last element is one of the list, and what is before the list is not
      refine hbefore x heq ?_
      cases hr : rest.getLast? with
      | none =>
        rw [hr] at hx
        exact some.inj hx ▸ mem_cons_self
      | some =>
        rw [hr] at hx
        exact some.inj hx ▸ mem_cons_of_mem _ (mem_of_getLast? hr)
    · intro y hy heq
      exact hn y hy (some.inj heq ▸ mem_cons_self)
    · intro x hx
      exact some.inj hx ▸ hfirst
    · intro y hy hmem
      exact hn y hy (mem_cons_of_mem _ hmem)

theorem Linked.join_first (h : links.Linked before l after) (hnodup : l.Nodup)
    (hp : ∀ x, p = some x → x ∉ l) (hafter : ∀ y, after = some y → y ∉ l) :
    (links.join p (l.head?.or after)).Linked p l after := by
  cases l with
  | nil => exact joined_join ..
  | cons =>
    obtain ⟨hfirst, -⟩ := nodup_cons.mp hnodup
    refine ⟨joined_join .., h.2.join ?_ ?_⟩
    · intro x hx
      have hmem := hp x hx
      exact ⟨fun heq => hmem (some.inj heq ▸ mem_cons_self),
        fun hrest => hmem (mem_cons_of_mem _ hrest)⟩
    · intro y hy
      cases hy
      exact ⟨fun heq => hafter _ heq mem_cons_self, hfirst⟩

omit [DecidableEq ι] in
theorem Linked.append (hxs : links.Linked before xs (ys.head?.or after))
    (hys : links.Linked (xs.getLast?.or before) ys after) : links.Linked before (xs ++ ys) after := by
  cases ys with
  | nil => exact (append_nil xs).symm ▸ hxs
  | cons => exact linked_append.mpr ⟨hxs, hys.2⟩

/-- The elements before and after one that is taken out. -/
theorem Linked.remove (h : links.Linked none (xs ++ x :: ys) none) (hnodup : (xs ++ x :: ys).Nodup) :
    (links.join (links.previous x) (links.next x)).Linked none (xs ++ ys) none := by
  rw [h.previous, h.next]
  obtain ⟨hxs, hys⟩ := linked_append.mp h
  rw [nodup_append, nodup_cons] at hnodup
  obtain ⟨hnodupXs, ⟨-, hnodupYs⟩, hdisjoint⟩ := hnodup
  refine Linked.append (hxs.join_last hnodupXs nofun ?_) (hys.join_first hnodupYs ?_ nofun)
  · intro y hy hmem
    rw [or_none] at hy
    exact hdisjoint y hmem y (mem_cons_of_mem _ (mem_of_head? hy)) rfl
  · intro z hz hmem
    rw [or_none] at hz
    exact hdisjoint z (mem_of_getLast? hz) z (mem_cons_of_mem _ hmem) rfl

theorem Linked.cut (h : links.Linked none (xs ++ y :: ys) none) (hnodup : (xs ++ y :: ys).Nodup) :
    ((links.join xs.getLast? none).join none (some y)).Linked none xs none ∧
      ((links.join xs.getLast? none).join none (some y)).Linked none (y :: ys) none := by
  obtain ⟨hxs, hys⟩ := linked_append.mp h
  rw [nodup_append, nodup_cons] at hnodup
  obtain ⟨hnodupXs, ⟨hy, -⟩, hdisjoint⟩ := hnodup
  have hlast : links.join xs.getLast? none = links.join (xs.getLast?.or none) none := by
    rw [or_none]
  constructor
  · rw [hlast]
    refine (hxs.join_last hnodupXs ?_ ?_).join ?_ ?_
    · exact nofun
    · exact nofun
    · exact nofun
    · intro z hz
      cases hz
      exact ⟨nofun, fun hmem => hdisjoint _ hmem _ mem_cons_self rfl⟩
  refine ⟨joined_join .., (hys.join ?_ ?_).join ?_ ?_⟩
  · intro z hz
    have hmem := mem_of_getLast? hz
    refine ⟨fun heq => ?_, fun hrest => ?_⟩
    · exact hdisjoint _ hmem _ mem_cons_self (some.inj heq).symm
    · exact hdisjoint _ hmem _ (mem_cons_of_mem _ hrest) rfl
  · exact nofun
  · exact nofun
  · intro z hz
    exact ⟨nofun, some.inj hz ▸ hy⟩

theorem Linked.concat (hxs : links.Linked none xs none) (hys : links.Linked none ys none)
    (hnodup : (xs ++ ys).Nodup) :
    (links.join xs.getLast? ys.head?).Linked none (xs ++ ys) none := by
  rw [nodup_append] at hnodup
  obtain ⟨hnodupXs, hnodupYs, hdisjoint⟩ := hnodup
  rw [← or_none (o := xs.getLast?), ← or_none (o := ys.head?)]
  refine Linked.append (hxs.join_last hnodupXs nofun ?_) (hys.join_first hnodupYs ?_ nofun)
  · intro y hy hmem
    rw [or_none] at hy
    exact hdisjoint y hmem y (mem_of_head? hy) rfl
  · intro z hz hmem
    rw [or_none] at hz
    exact hdisjoint z (mem_of_getLast? hz) z hmem rfl

theorem Linked.insert (h : links.Linked none (xs ++ y :: ys) none) (hnodup : (xs ++ y :: ys).Nodup)
    (hx : x ∉ xs ++ y :: ys) :
    ((links.join (links.previous y) (some x)).join (some x) (some y)).Linked none
      (xs ++ x :: y :: ys) none := by
  rw [h.previous]
  obtain ⟨hxs, hys⟩ := linked_append.mp h
  rw [nodup_append, nodup_cons] at hnodup
  obtain ⟨hnodupXs, ⟨hy, -⟩, hdisjoint⟩ := hnodup
  rw [mem_append, mem_cons, not_or, not_or] at hx
  obtain ⟨hxXs, hxy, hxYs⟩ := hx
  have hyXs : y ∉ xs := fun hmem => hdisjoint y hmem y mem_cons_self rfl
  refine linked_append.mpr ⟨(hxs.join_last hnodupXs ?_ ?_).join ?_ ?_, joined_join ..,
    (hys.join ?_ ?_).join ?_ ?_⟩
  · exact nofun
  · exact fun z hz => some.inj hz ▸ hxXs
  · exact fun z hz => ⟨nofun, some.inj hz ▸ hxXs⟩
  · exact fun z hz => ⟨fun heq => hxy (some.inj (heq.trans hz.symm)), some.inj hz ▸ hyXs⟩
  · intro z hz
    rw [or_none] at hz
    have hmem := mem_of_getLast? hz
    refine ⟨fun heq => ?_, fun hrest => ?_⟩
    · exact hyXs (some.inj heq ▸ hmem)
    · exact hdisjoint z hmem z (mem_cons_of_mem _ hrest) rfl
  · exact fun z hz => ⟨nofun, some.inj hz ▸ hxYs⟩
  · exact fun z hz => ⟨fun heq => hxy (some.inj (heq.trans hz.symm)).symm, some.inj hz ▸ hxYs⟩
  · exact fun z hz => ⟨nofun, some.inj hz ▸ hy⟩

/-! ## Lists -/

omit [DecidableEq ι] in
theorem IsList.nil (links : Links ι) : links.IsList none ([] : List ι) :=
  ⟨⟨nofun, nofun⟩, nodup_nil, rfl⟩

theorem IsList.add (h : links.IsList list l) (hx : x ∉ l) :
    (links.add list x).1.IsList (links.add list x).2 (x :: l) := by
  refine ⟨?_, nodup_cons.mpr ⟨hx, h.nodup⟩, rfl⟩
  obtain ⟨hlinked, hnodup, rfl⟩ := h
  cases l with
  | nil => exact ⟨(joined_join ..).join nofun nofun, joined_join ..⟩
  | cons first =>
    have hprevious : links.previous first = none := hlinked.1.2 first rfl
    show ((links.join (links.previous first) (some x)).join (some x) (some first)).Linked _ _ _
    rw [hprevious]
    rw [mem_cons, not_or] at hx
    have hne : ∀ y, some first = some y → some x ≠ some y :=
      fun y hy heq => hx.1 (some.inj (heq.trans hy.symm))
    have hfirst := (nodup_cons.mp hnodup).1
    refine ⟨(joined_join ..).join nofun hne, joined_join .., (hlinked.2.join ?_ ?_).join ?_ ?_⟩
    · exact nofun
    · intro y hy
      exact ⟨nofun, some.inj hy ▸ hx.2⟩
    · intro y hy
      exact ⟨fun heq => hne y heq hy, some.inj hy ▸ hx.2⟩
    · intro y hy
      exact ⟨nofun, some.inj hy ▸ hfirst⟩

/-- An element is deleted. A pointer to the first element then is to the first one that is left. -/
theorem IsList.delete (h : links.IsList list (xs ++ x :: ys)) :
    (links.delete list x).1.IsList (links.delete list x).2 (xs ++ ys) := by
  obtain ⟨hlinked, hnodup, rfl⟩ := h
  refine ⟨hlinked.remove hnodup, hnodup.sublist ?_, ?_⟩
  · exact (List.Sublist.refl xs).append (sublist_cons_self x ys)
  unfold Links.delete
  rw [hlinked.previous, hlinked.next]
  cases xs with
  | nil => exact (if_pos rfl).trans (by cases ys <;> rfl)
  | cons first =>
    refine if_neg fun heq => ?_
    rw [nodup_append] at hnodup
    exact hnodup.2.2 first mem_cons_self x mem_cons_self (some.inj heq)

/-- What the pointer to the last element is after a deletion. -/
theorem delete_last (hlinked : links.Linked none (xs ++ x :: ys) none)
    (hnodup : (xs ++ x :: ys).Nodup) :
    (links.delete (xs ++ x :: ys).getLast? x).2 = (xs ++ ys).getLast? := by
  unfold Links.delete
  rw [hlinked.previous, hlinked.next, getLast?_append, getLast?_append]
  cases ys with
  | nil =>
    refine (if_pos rfl).trans ?_
    cases xs.getLast? <;> rfl
  | cons y ys =>
    rw [List.getLast?_cons_cons, getLast?_cons]
    refine if_neg fun heq => ?_
    rw [nodup_append, nodup_cons] at hnodup
    refine hnodup.2.1.1 (mem_of_getLast? (l := y :: ys) ?_)
    rw [getLast?_cons]
    exact heq

omit [DecidableEq ι] in
theorem walk_next (h : links.Linked before l none) {fuel : Nat} (hfuel : l.length ≤ fuel) :
    walk links.next fuel l.head? = l := by
  induction l generalizing before fuel with
  | nil => cases fuel <;> rfl
  | cons x xs ih =>
    cases fuel with
    | zero => cases hfuel
    | succ fuel =>
      show x :: walk links.next fuel (links.next x) = x :: xs
      rw [h.2.first.1 x rfl, or_none, ih h.2 (Nat.le_of_succ_le_succ hfuel)]

omit [DecidableEq ι] in
theorem walk_previous (h : links.Linked none l after) {fuel : Nat} (hfuel : l.length ≤ fuel) :
    walk links.previous fuel l.getLast? = l.reverse := by
  induction l using List.reverseRecOn generalizing after fuel with
  | nil => cases fuel <;> rfl
  | append_singleton xs x ih =>
    cases fuel with
    | zero => simp at hfuel
    | succ fuel =>
      rw [getLast?_concat, reverse_concat]
      show x :: walk links.previous fuel (links.previous x) = x :: xs.reverse
      rw [h.previous, or_none, ih (linked_append.mp h).1]
      rw [length_append] at hfuel
      exact Nat.le_of_succ_le_succ hfuel

omit [DecidableEq ι] in
theorem IsList.unique {other : List ι} (h : links.IsList list l) (h' : links.IsList list other) :
    l = other := by
  have hl := walk_next h.linked (Nat.le_max_left l.length other.length)
  have hother := walk_next h'.linked (Nat.le_max_right l.length other.length)
  rw [← h.head] at hl
  rw [← h'.head] at hother
  exact hl.symm.trans hother

/-! ## Pointers into a list -/

/-- The list that a pointer is into, at any of its elements. -/
structure Into (links : Links ι) (list : Option ι) (l : List ι) : Prop where
  linked : links.Linked none l none
  nodup : l.Nodup
  null : list = none ↔ l = []
  mem : ∀ x, list = some x → x ∈ l

variable {other : List ι}

omit [DecidableEq ι] in
theorem Into.nil (links : Links ι) : links.Into none ([] : List ι) :=
  ⟨⟨nofun, nofun⟩, nodup_nil, iff_of_true rfl rfl, nofun⟩

/-- An element is put before the one that the pointer is to, and the last one stays. -/
theorem Into.addBefore (h : links.Into list l) (hx : x ∉ l) :
    ∃ next, (links.addBefore list x).1.Into (links.addBefore list x).2 next ∧ next.Perm (x :: l) ∧
      next.getLast? = l.getLast?.or (some x) := by
  cases list with
  | none =>
    obtain rfl := h.null.mp rfl
    refine ⟨[x], ⟨?_, nodup_singleton x, iff_of_false nofun nofun, ?_⟩, .refl _, rfl⟩
    · exact ⟨(joined_join ..).join nofun nofun, joined_join ..⟩
    · exact fun z hz => mem_singleton.mpr (some.inj hz).symm
  | some y =>
    obtain ⟨xs, ys, rfl⟩ := append_of_mem (h.mem y rfl)
    refine ⟨xs ++ x :: y :: ys, ⟨h.linked.insert h.nodup hx, ?_, ?_, ?_⟩, perm_middle, ?_⟩
    · exact perm_middle.nodup_iff.mpr (nodup_cons.mpr ⟨hx, h.nodup⟩)
    · exact iff_of_false nofun (by simp)
    · intro z hz
      cases hz
      simp
    · rw [getLast?_append, getLast?_append, List.getLast?_cons_cons, getLast?_cons]
      rfl

theorem Into.delete (h : links.Into list (xs ++ x :: ys)) :
    (links.delete list x).1.Into (links.delete list x).2 (xs ++ ys) := by
  have hsublist : (xs ++ ys).Sublist (xs ++ x :: ys) :=
    (List.Sublist.refl xs).append (sublist_cons_self x ys)
  refine ⟨h.linked.remove h.nodup, h.nodup.sublist hsublist, ?_, ?_⟩
  · unfold Links.delete
    rw [h.linked.previous, h.linked.next, or_none, or_none]
    split
    case isTrue => rw [or_eq_none_iff, getLast?_eq_none_iff, List.head?_eq_none_iff,
      append_eq_nil_iff]
    case isFalse hne =>
    have hlist : list ≠ none := fun hnone => by simpa using h.null.mp hnone
    refine iff_of_false hlist fun hnil => hne ?_
    -- the only element is the one that is deleted
    rw [append_eq_nil_iff] at hnil
    obtain ⟨rfl, rfl⟩ := hnil
    obtain ⟨z, rfl⟩ := ne_none_iff_exists'.mp hlist
    rw [mem_singleton.mp (h.mem z rfl)]
  unfold Links.delete
  rw [h.linked.previous, h.linked.next, or_none, or_none]
  intro z hz
  split at hz
  case isTrue =>
    rw [or_eq_some_iff] at hz
    rcases hz with hlast | ⟨-, hfirst⟩
    · exact mem_append_left _ (mem_of_getLast? hlast)
    · exact mem_append_right _ (mem_of_head? hfirst)
  case isFalse hne =>
  have hmem := h.mem z hz
  rw [mem_append, mem_cons] at hmem
  rw [mem_append]
  refine hmem.imp_right fun hrest => hrest.resolve_left fun heq => hne ?_
  exact hz.trans (congrArg some heq)

/-- Another list does not share elements with the one that is changed. -/
theorem Into.of_addBefore (h : links.Into p other) (hlist : links.Into list l)
    (hdisjoint : ∀ z ∈ l, z ∉ other) (hx : x ∉ other) : (links.addBefore list x).1.Into p other := by
  refine { h with linked := ?_ }
  cases list with
  | none =>
    refine (h.linked.join ?_ ?_).join ?_ ?_
    · exact nofun
    · exact fun z hz => ⟨nofun, some.inj hz ▸ hx⟩
    · exact fun z hz => ⟨nofun, some.inj hz ▸ hx⟩
    · exact nofun
  | some y =>
    have hy := hlist.mem y rfl
    obtain ⟨xs, ys, rfl⟩ := append_of_mem hy
    refine (h.linked.join ?_ ?_).join ?_ ?_
    · intro z hz
      rw [hlist.linked.previous, or_none] at hz
      exact ⟨nofun, hdisjoint z (mem_append_left _ (mem_of_getLast? hz))⟩
    · exact fun z hz => ⟨nofun, some.inj hz ▸ hx⟩
    · exact fun z hz => ⟨nofun, some.inj hz ▸ hx⟩
    · exact fun z hz => ⟨nofun, some.inj hz ▸ hdisjoint y hy⟩

theorem Into.of_delete (h : links.Into p other) (hlist : links.Into list (xs ++ x :: ys))
    (hdisjoint : ∀ z ∈ xs ++ x :: ys, z ∉ other) : (links.delete list x).1.Into p other := by
  refine { h with linked := h.linked.join ?_ ?_ }
  · intro z hz
    rw [hlist.linked.previous, or_none] at hz
    exact ⟨nofun, hdisjoint z (mem_append_left _ (mem_of_getLast? hz))⟩
  intro z hz
  rw [hlist.linked.next, or_none] at hz
  exact ⟨nofun, hdisjoint z
    (mem_append_right _ (mem_cons_of_mem _ (mem_of_head? hz)))⟩

/-- A list is put behind another one, by the pointers to the last and the first element. -/
theorem Into.concat (h : links.Into list l) (hother : links.Into p other)
    (hfirst : ∀ y, p = some y → links.previous y = none) (hl : l ≠ [])
    (hnodup : (l ++ other).Nodup) : (links.join l.getLast? p).Into list (l ++ other) := by
  have hhead : p = other.head? := by
    cases hp : p with
    | none => rw [hother.null.mp hp]; rfl
    | some y =>
      obtain ⟨xs, ys, rfl⟩ := append_of_mem (hother.mem y hp)
      have hprevious := hother.linked.previous
      rw [hfirst y hp, or_none] at hprevious
      rw [getLast?_eq_none_iff.mp hprevious.symm]
      rfl
  refine ⟨hhead ▸ h.linked.concat hother.linked hnodup, hnodup, ?_, ?_⟩
  · exact iff_of_false (fun hnone => hl (h.null.mp hnone)) fun hnil => hl (append_eq_nil_iff.mp hnil).1
  · exact fun z hz => mem_append_left _ (h.mem z hz)

end Links

end Bdt.Base
