import Mathlib.Data.List.Nodup

/-!
# Search trees

A balanced search tree that is right for the order of its comparator holds nodes of which no two
compare equal, and finds the node that compares equal to the one it is asked for. The shape of the
tree does not matter for that, so here it is the list of the nodes, the last one added first.

`ComparesBy` says that the comparator tells nodes apart by a key. The lemmas then say what a tree
of different keys finds, and that adding and deleting keep the keys different.
-/

namespace Bdt.Base

open List

variable {α κ : Type*}

/-- Two nodes compare equal if and only if they have the same key. -/
def ComparesBy (comparator : α → α → Int) (key : α → κ) : Prop :=
  ∀ elem node, comparator elem node = 0 ↔ key elem = key node

/-- The search for `elem` ends at `node`. -/
def comparesEqual (comparator : α → α → Int) (elem node : α) : Bool :=
  comparator elem node = 0

/-- The node that compares equal to `elem`. -/
def findMember (comparator : α → α → Int) (tree : List α) (elem : α) : Option α :=
  tree.find? (comparesEqual comparator elem)

/-- Add `elem`, unless a node compares equal to it. That node is the second result. -/
def addIfNotMember (comparator : α → α → Int) (tree : List α) (elem : α) : List α × Option α :=
  match findMember comparator tree elem with
  | some found => (tree, some found)
  | none => (elem :: tree, none)

/-- Delete the node that compares equal to `elem`. It is the second result. -/
def deleteIfMember (comparator : α → α → Int) (tree : List α) (elem : α) : List α × Option α :=
  (tree.eraseP (comparesEqual comparator elem), findMember comparator tree elem)

/-- Change the node that compares equal to `elem`. -/
def updateMember (comparator : α → α → Int) (tree : List α) (elem : α) (change : α → α) : List α :=
  match tree with
  | [] => []
  | node :: rest =>
    if comparesEqual comparator elem node then change node :: rest
    else node :: updateMember comparator rest elem change

/-- `memcmp`, of two blocks of one length. -/
def memcmp : List UInt8 → List UInt8 → Int
  | x :: xs, y :: ys => if x = y then memcmp xs ys else if x < y then -1 else 1
  | _, _ => 0

variable {comparator : α → α → Int} {key : α → κ} {tree : List α} {elem node : α}

theorem comparesEqual_iff (hc : ComparesBy comparator key) :
    comparesEqual comparator elem node = true ↔ key elem = key node :=
  decide_eq_true_iff.trans (hc elem node)

theorem findMember_mem (hc : ComparesBy comparator key)
    (h : findMember comparator tree elem = some node) : node ∈ tree ∧ key elem = key node :=
  ⟨List.mem_of_find?_eq_some h, (comparesEqual_iff hc).mp (List.find?_some h)⟩

theorem findMember_eq_none (hc : ComparesBy comparator key) :
    findMember comparator tree elem = none ↔ ∀ node ∈ tree, key elem ≠ key node := by
  unfold findMember
  rw [List.find?_eq_none]
  refine forall₂_congr fun node _ => ?_
  rw [comparesEqual_iff hc]

/-- Two nodes of a tree of different keys that have the same key are the same. -/
theorem eq_of_key (hkeys : (tree.map key).Nodup) {other : α} (hnode : node ∈ tree)
    (hother : other ∈ tree) (h : key node = key other) : node = other :=
  inj_on_of_nodup_map hkeys hnode hother h

theorem findMember_eq_some (hc : ComparesBy comparator key) (hkeys : (tree.map key).Nodup) :
    findMember comparator tree elem = some node ↔ node ∈ tree ∧ key elem = key node := by
  refine ⟨findMember_mem hc, fun ⟨hmem, hkey⟩ => ?_⟩
  cases hfound : findMember comparator tree elem with
  | none => exact absurd hkey ((findMember_eq_none hc).mp hfound node hmem)
  | some =>
    obtain ⟨hfoundMem, hfoundKey⟩ := findMember_mem hc hfound
    rw [eq_of_key hkeys hfoundMem hmem (hfoundKey.symm.trans hkey)]

/-- A new node goes into a tree that finds none equal to it. -/
theorem nodup_cons (hc : ComparesBy comparator key) (hkeys : (tree.map key).Nodup)
    (h : findMember comparator tree elem = none) {added : α} (hkey : key added = key elem) :
    ((added :: tree).map key).Nodup := by
  rw [map_cons, List.nodup_cons]
  refine ⟨fun hmem => ?_, hkeys⟩
  obtain ⟨node, hnode, hsame⟩ := List.mem_map.mp hmem
  exact (findMember_eq_none hc).mp h node hnode (hkey.symm.trans hsame.symm)

theorem nodup_delete (hkeys : (tree.map key).Nodup) :
    ((deleteIfMember comparator tree elem).1.map key).Nodup :=
  hkeys.sublist ((tree.eraseP_sublist).map key)

theorem addIfNotMember_added {next : List α}
    (h : addIfNotMember comparator tree elem = (next, none)) :
    findMember comparator tree elem = none ∧ next = elem :: tree := by
  unfold addIfNotMember at h
  split at h
  case h_1 => cases h
  case h_2 hnone => exact ⟨hnone, (congrArg Prod.fst h).symm⟩

/-- The node that was found is the one that is deleted. -/
theorem delete_perm (hc : ComparesBy comparator key) (h : findMember comparator tree elem = some node) :
    tree.Perm (node :: (deleteIfMember comparator tree node).1) := by
  have hsame : comparesEqual comparator elem = comparesEqual comparator node := by
    funext other
    rw [Bool.eq_iff_iff, comparesEqual_iff hc, comparesEqual_iff hc, (findMember_mem hc h).2]
  unfold findMember at h
  rw [hsame] at h
  unfold deleteIfMember
  induction tree with
  | nil => cases h
  | cons first _ ih =>
    by_cases hfirst : comparesEqual comparator node first = true
    · rw [List.find?_cons_of_pos hfirst] at h
      rw [eraseP_cons_of_pos hfirst, Option.some.inj h]
    · rw [List.find?_cons_of_neg hfirst] at h
      rw [eraseP_cons_of_neg hfirst]
      exact ((ih h).cons first).trans (.swap node first _)

theorem mem_delete (hc : ComparesBy comparator key) (hkeys : (tree.map key).Nodup) :
    node ∈ (deleteIfMember comparator tree elem).1 ↔ node ∈ tree ∧ key elem ≠ key node := by
  unfold deleteIfMember
  induction tree with
  | nil => exact ⟨fun h => absurd h not_mem_nil, fun h => absurd h.1 not_mem_nil⟩
  | cons first _ ih =>
    rw [map_cons, List.nodup_cons] at hkeys
    by_cases hfirst : comparesEqual comparator elem first = true
    · have hkey := (comparesEqual_iff hc).mp hfirst
      rw [eraseP_cons_of_pos hfirst, mem_cons]
      refine ⟨fun hmem => ⟨.inr hmem, fun hsame => hkeys.1 ?_⟩, fun ⟨hmem, hne⟩ => ?_⟩
      · exact List.mem_map.mpr ⟨node, hmem, hsame.symm.trans hkey⟩
      · exact hmem.resolve_left fun heq => hne (heq ▸ hkey)
    have hkey : key elem ≠ key first := fun h => hfirst ((comparesEqual_iff hc).mpr h)
    rw [eraseP_cons_of_neg hfirst, mem_cons, mem_cons, ih hkeys.2]
    constructor
    · intro h
      rcases h with rfl | ⟨hmem, hne⟩
      · exact ⟨.inl rfl, hkey⟩
      · exact ⟨.inr hmem, hne⟩
    · intro h
      exact h.1.imp id fun hmem => ⟨hmem, h.2⟩

theorem map_updateMember {change : α → α} (hchange : ∀ node, key (change node) = key node) :
    (updateMember comparator tree elem change).map key = tree.map key := by
  induction tree with
  | nil => rfl
  | cons _ _ ih =>
    unfold updateMember
    split
    case isTrue => rw [map_cons, map_cons, hchange]
    case isFalse => rw [map_cons, map_cons, ih]

/-- A node after a change is one that was there, or the one that was changed. -/
theorem mem_updateMember {change : α → α} (h : node ∈ updateMember comparator tree elem change) :
    node ∈ tree ∨ ∃ found, findMember comparator tree elem = some found ∧ node = change found := by
  induction tree with
  | nil => cases h
  | cons first _ ih =>
    unfold updateMember at h
    unfold findMember
    split at h
    case isTrue heq =>
      rw [List.find?_cons_of_pos heq]
      rcases mem_cons.mp h with rfl | h
      · exact .inr ⟨first, rfl, rfl⟩
      · exact .inl (mem_cons_of_mem _ h)
    case isFalse hne =>
    rw [List.find?_cons_of_neg hne]
    rcases mem_cons.mp h with rfl | h
    · exact .inl mem_cons_self
    · exact (ih h).imp_left (mem_cons_of_mem _)

theorem updateMember_split (change : α → α) (h : findMember comparator tree elem = some node) :
    ∃ front back, tree = front ++ node :: back ∧
      updateMember comparator tree elem change = front ++ change node :: back := by
  induction tree with
  | nil => cases h
  | cons first rest ih =>
    unfold updateMember
    unfold findMember at h
    split
    case isTrue heq =>
      rw [List.find?_cons_of_pos heq] at h
      cases h
      exact ⟨[], rest, rfl, rfl⟩
    case isFalse hne =>
    rw [List.find?_cons_of_neg hne] at h
    obtain ⟨front, back, hrest, hnext⟩ := ih h
    exact ⟨first :: front, back, congrArg (first :: ·) hrest, congrArg (first :: ·) hnext⟩

/-! ## What nodes hold under their keys -/

variable {β : Type*} [DecidableEq κ] {f : α → List β} {k : κ}

/-- What is held under a key by all the nodes of this key. -/
def entriesOf (key : α → κ) (f : α → List β) (tree : List α) (k : κ) : List β :=
  tree.flatMap fun node => if key node = k then f node else []

theorem entriesOf_append (front back : List α) :
    entriesOf key f (front ++ back) k = entriesOf key f front k ++ entriesOf key f back k :=
  flatMap_append

theorem entriesOf_cons (node : α) (rest : List α) :
    entriesOf key f (node :: rest) k = (if key node = k then f node else []) ++ entriesOf key f rest k :=
  flatMap_cons

theorem entriesOf_singleton (node : α) :
    entriesOf key f [node] k = if key node = k then f node else [] :=
  flatMap_singleton _ node

theorem entriesOf_eq_nil (h : ∀ node ∈ tree, key node ≠ k) : entriesOf key f tree k = [] :=
  flatMap_eq_nil_iff.mpr fun node hmem => if_neg (h node hmem)

theorem exists_of_entriesOf (h : entriesOf key f tree k ≠ []) :
    ∃ node ∈ tree, key node = k ∧ f node ≠ [] := by
  by_contra hnone
  refine h (flatMap_eq_nil_iff.mpr fun node hmem => ?_)
  split
  case isTrue heq =>
    by_contra hne
    exact hnone ⟨node, hmem, heq, hne⟩
  case isFalse => rfl

/-- One node holds what there is under its key, and the others what there is elsewhere. -/
theorem entriesOf_split {front back : List α} (hkeys : ((front ++ node :: back).map key).Nodup)
    (k : κ) : entriesOf key f (front ++ node :: back) k =
      if key node = k then f node else entriesOf key f (front ++ back) k := by
  rw [entriesOf_append, entriesOf_cons]
  rw [map_append, map_cons, nodup_append, List.nodup_cons] at hkeys
  obtain ⟨-, ⟨hback, -⟩, hfront⟩ := hkeys
  split
  case isTrue heq =>
    subst heq
    rw [entriesOf_eq_nil fun other hmem hsame => ?_, entriesOf_eq_nil fun other hmem hsame => ?_,
      nil_append, append_nil]
    · exact hback (List.mem_map.mpr ⟨other, hmem, hsame⟩)
    · exact hfront _ (List.mem_map_of_mem hmem) _ mem_cons_self hsame
  case isFalse => rw [nil_append, entriesOf_append]

theorem entriesOf_found (hkeys : (tree.map key).Nodup) (hmem : node ∈ tree) :
    entriesOf key f tree (key node) = f node := by
  obtain ⟨front, back, rfl⟩ := append_of_mem hmem
  exact (entriesOf_split hkeys (key node)).trans (if_pos rfl)

theorem entriesOf_change {front back : List α} {next : α}
    (hkeys : ((front ++ node :: back).map key).Nodup) (hkey : key next = key node) (k : κ) :
    entriesOf key f (front ++ next :: back) k =
      if key node = k then f next else entriesOf key f (front ++ node :: back) k := by
  have hnext : ((front ++ next :: back).map key).Nodup := by
    rwa [map_append, map_cons, hkey, ← map_cons, ← map_append]
  rw [entriesOf_split hnext, entriesOf_split hkeys, hkey]
  split
  case isTrue => rfl
  case isFalse => rfl

/-- The node that compares equal to `elem` is changed, but not its key. -/
theorem entriesOf_updateMember (hc : ComparesBy comparator key) (hkeys : (tree.map key).Nodup)
    (change : α → α) (hkey : ∀ node, key (change node) = key node) {g : List β → List β}
    (hg : ∀ node, f (change node) = g (f node)) (h : findMember comparator tree elem = some node) (k : κ) :
    entriesOf key f (updateMember comparator tree elem change) k =
      if key elem = k then g (entriesOf key f tree k) else entriesOf key f tree k := by
  obtain ⟨hmem, hsame⟩ := findMember_mem hc h
  obtain ⟨front, back, htree, hnext⟩ := updateMember_split change h
  rw [hnext, hsame, entriesOf_change (htree ▸ hkeys) (hkey node), ← htree, hg]
  split
  case isTrue heq => rw [← heq, entriesOf_found hkeys hmem]
  case isFalse => rfl

/-- Nothing compares equal to `elem`. -/
theorem updateMember_none (change : α → α) (h : findMember comparator tree elem = none) :
    updateMember comparator tree elem change = tree := by
  induction tree with
  | nil => rfl
  | cons _ _ ih =>
    unfold findMember at h
    rw [List.find?_cons] at h
    unfold updateMember
    split at h
    case h_1 => cases h
    case h_2 hne =>
      rw [hne, ih h]
      exact if_neg Bool.false_ne_true

/-- Nothing is held any more under the key of `elem`. -/
theorem entriesOf_delete (hc : ComparesBy comparator key) (hkeys : (tree.map key).Nodup) (k : κ) :
    entriesOf key f (deleteIfMember comparator tree elem).1 k =
      if key elem = k then [] else entriesOf key f tree k := by
  unfold deleteIfMember
  induction tree with
  | nil => exact (ite_self _).symm
  | cons first _ ih =>
    rw [map_cons, List.nodup_cons] at hkeys
    by_cases hfirst : comparesEqual comparator elem first = true
    · have hkey := (comparesEqual_iff hc).mp hfirst
      rw [eraseP_cons_of_pos hfirst, entriesOf_cons, hkey]
      split
      case isTrue heq =>
        refine entriesOf_eq_nil fun node hmem hsame => hkeys.1 ?_
        exact List.mem_map.mpr ⟨node, hmem, hsame.trans heq.symm⟩
      case isFalse => rfl
    have hkey : key elem ≠ key first := fun h => hfirst ((comparesEqual_iff hc).mpr h)
    rw [eraseP_cons_of_neg hfirst, entriesOf_cons, entriesOf_cons, ih hkeys.2]
    split
    case isTrue heq =>
      have hne : key elem ≠ k := fun hsame => hkey (hsame.trans heq.symm)
      rw [if_neg hne, if_neg hne]
    case isFalse => rfl

theorem memcmp_eq_zero {xs ys : List UInt8} (hlength : xs.length = ys.length) :
    memcmp xs ys = 0 ↔ xs = ys := by
  induction xs generalizing ys with
  | nil => exact ⟨fun _ => (length_eq_zero_iff.mp hlength.symm).symm, fun _ => rfl⟩
  | cons _ _ ih =>
    cases ys with
    | nil => cases hlength
    | cons =>
      unfold memcmp
      split
      case isTrue heq => rw [heq, ih (Nat.succ.inj hlength), cons_inj_right]
      case isFalse hne =>
        refine ⟨fun h => ?_, fun h => absurd (cons.inj h).1 hne⟩
        split at h <;> cases h

end Bdt.Base
