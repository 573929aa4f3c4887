import Mathlib.Data.List.Induction
import Mathlib.Data.List.Nodup

/-!
# Tables with a primary key, and the logs of their writes

A table is the list of its rows in the order of their insertion. An insert of a key that is there
already fails, and an update changes the row of its key, if there is one. `table_eq` says what a log
leaves in an empty table when every key is inserted once and before its updates: for each inserted key
the value that was written last. `SameWrites` compares two logs that have the same inserts, and the
same writes of every single key, but may interleave the writes of different keys in another way.
-/

namespace Bdt.Base

open List

variable {K V : Type*} [DecidableEq K]

inductive Write (K V : Type*) where
  | insert (key : K) (value : V)
  | update (key : K) (value : V)

namespace Write

def key : Write K V → K
  | insert key _ | update key _ => key

def value : Write K V → V
  | insert _ value | update _ value => value

/-- The key, of an insert. -/
def inserts : Write K V → Option K
  | insert key _ => some key
  | update _ _ => none

end Write

def writeRow (rows : List (K × V)) : Write K V → List (K × V)
  | .insert key value =>
    if rows.any fun row => row.1 = key then rows else rows ++ [(key, value)]
  | .update key value => rows.map fun row => if row.1 = key then (key, value) else row

def writeRows (log : List (Write K V)) : List (K × V) := log.foldl writeRow []

/-- The writes of one key. -/
def keyLog (log : List (Write K V)) (key : K) : List (Write K V) :=
  log.filter fun w => w.key = key

def insertedKeys (log : List (Write K V)) : List K := log.filterMap Write.inserts

def lastValue (log : List (Write K V)) (key : K) : Option V :=
  (keyLog log key).getLast?.map Write.value

/-- Every key is inserted once, and before it is updated. -/
def InsertedFirst (log : List (Write K V)) : Prop :=
  ∀ key, keyLog log key = [] ∨
    ∃ value updates, keyLog log key = .insert key value :: updates ∧ insertedKeys updates = []

variable {log other : List (Write K V)} {w : Write K V} {key : K}

theorem keyLog_append (log other : List (Write K V)) (key : K) :
    keyLog (log ++ other) key = keyLog log key ++ keyLog other key :=
  filter_append ..

theorem keyLog_self (w : Write K V) : keyLog [w] w.key = [w] := by
  unfold keyLog
  rw [filter_cons_of_pos (by simp), filter_nil]

theorem keyLog_other (h : w.key ≠ key) : keyLog [w] key = [] := by
  unfold keyLog
  rw [filter_cons_of_neg (by simp [h]), filter_nil]

theorem insertedKeys_append (log other : List (Write K V)) :
    insertedKeys (log ++ other) = insertedKeys log ++ insertedKeys other :=
  filterMap_append

/-- The writes of a key begin with its only insert. -/
def beginsWithInsert : List (Write K V) → Bool
  | .insert _ _ :: updates => (insertedKeys updates).isEmpty
  | _ => false

theorem insertedFirst_iff :
    InsertedFirst log ↔ ∀ w ∈ log, beginsWithInsert (keyLog log w.key) = true := by
  constructor
  · intro h w hw
    have hmem : w ∈ keyLog log w.key := mem_filter.mpr ⟨hw, decide_eq_true rfl⟩
    rcases h w.key with hnil | ⟨value, updates, hlog, hupdates⟩
    · rw [hnil] at hmem
      cases hmem
    · rw [hlog]
      exact List.isEmpty_iff.mpr hupdates
  intro h key
  cases hlog : keyLog log key with
  | nil => exact .inl rfl
  | cons first updates =>
    have hmem : first ∈ keyLog log key := by
      rw [hlog]
      exact mem_cons_self
    obtain ⟨hfirst, hkey⟩ := mem_filter.mp hmem
    have hbegins := h first hfirst
    rw [of_decide_eq_true hkey, hlog] at hbegins
    cases first with
    | update => cases hbegins
    | insert k value =>
      obtain rfl : k = key := of_decide_eq_true hkey
      exact .inr ⟨value, updates, rfl, List.isEmpty_iff.mp hbegins⟩

instance (log : List (Write K V)) : Decidable (InsertedFirst log) :=
  decidable_of_iff _ insertedFirst_iff.symm

theorem InsertedFirst.front (h : InsertedFirst (log ++ other)) : InsertedFirst log := by
  intro key
  rcases h key with hnil | ⟨value, updates, hlog, hupdates⟩
  · rw [keyLog_append] at hnil
    exact .inl (append_eq_nil_iff.mp hnil).1
  rw [keyLog_append] at hlog
  cases hfront : keyLog log key with
  | nil => exact .inl rfl
  | cons _ rest =>
    rw [hfront, cons_append] at hlog
    obtain ⟨rfl, rfl⟩ := cons.inj hlog
    refine .inr ⟨value, rest, rfl, ?_⟩
    rw [insertedKeys_append] at hupdates
    exact (append_eq_nil_iff.mp hupdates).1

theorem InsertedFirst.fresh {value : V} (h : InsertedFirst (log ++ [.insert key value])) :
    keyLog log key = [] := by
  have hself : keyLog [Write.insert key value] key = [.insert key value] :=
    keyLog_self (.insert key value)
  rcases h key with hnil | ⟨_, updates, hlog, hupdates⟩
  · rw [keyLog_append, hself] at hnil
    cases (append_eq_nil_iff.mp hnil).2
  rw [keyLog_append, hself] at hlog
  cases hfront : keyLog log key with
  | nil => rfl
  | cons =>
    rw [hfront, cons_append] at hlog
    obtain ⟨-, rfl⟩ := cons.inj hlog
    rw [insertedKeys_append] at hupdates
    cases (append_eq_nil_iff.mp hupdates).2

theorem mem_keyLog_of_inserted (h : key ∈ insertedKeys log) : keyLog log key ≠ [] := by
  obtain ⟨w, hw, hkey⟩ := mem_filterMap.mp h
  refine ne_nil_of_mem (mem_filter.mpr ⟨hw, ?_⟩)
  cases w with
  | insert => exact decide_eq_true (Option.some.inj hkey)
  | update => cases hkey

theorem lastValue_concat_self (log : List (Write K V)) (w : Write K V) :
    lastValue (log ++ [w]) w.key = some w.value := by
  unfold lastValue
  rw [keyLog_append, keyLog_self, getLast?_concat]
  rfl

theorem lastValue_concat_other (log : List (Write K V)) (h : w.key ≠ key) :
    lastValue (log ++ [w]) key = lastValue log key := by
  unfold lastValue
  rw [keyLog_append, keyLog_other h, append_nil]

theorem lastValue_isSome (h : key ∈ insertedKeys log) : ∃ value, lastValue log key = some value := by
  obtain ⟨w, hw⟩ := Option.ne_none_iff_exists'.mp
    (mt getLast?_eq_none_iff.mp (mem_keyLog_of_inserted h))
  exact ⟨w.value, by rw [lastValue, hw]; rfl⟩

/-- The row that a log leaves for a key. -/
def lastRow (log : List (Write K V)) (key : K) : Option (K × V) :=
  (lastValue log key).map (key, ·)

/-- For every inserted key the last value. -/
def lastRows (log : List (Write K V)) : List (K × V) := (insertedKeys log).filterMap (lastRow log)

theorem keys_lastRows (log : List (Write K V)) : (lastRows log).map (·.1) = insertedKeys log := by
  have hkeys : ∀ keys : List K, (∀ key ∈ keys, key ∈ insertedKeys log) →
      (keys.filterMap (lastRow log)).map (·.1) = keys := by
    intro keys
    induction keys with
    | nil => exact fun _ => rfl
    | cons key _ ih =>
      intro hmem
      obtain ⟨value, hvalue⟩ := lastValue_isSome (hmem key mem_cons_self)
      have hrow : lastRow log key = some (key, value) := by
        rw [lastRow, hvalue]
        rfl
      rw [filterMap_cons_some hrow, map_cons, ih fun k hk => hmem k (mem_cons_of_mem key hk)]
  exact hkeys _ fun _ h => h

/-- A log leaves the last value of every inserted key. -/
theorem table_eq (h : InsertedFirst log) : writeRows log = lastRows log := by
  show _ = (insertedKeys log).filterMap (lastRow log)
  induction log using List.reverseRecOn with
  | nil => rfl
  | append_singleton log w ih =>
    have hrows := ih h.front
    have hfold : writeRows (log ++ [w]) = writeRow (writeRows log) w := foldl_append ..
    rw [hfold, hrows, insertedKeys_append]
    cases w with
    | insert key value =>
      have hfresh := h.fresh
      have hnew : key ∉ insertedKeys log := fun hmem => mem_keyLog_of_inserted hmem hfresh
      have hnone : ((insertedKeys log).filterMap (lastRow log)).any
          (fun row => row.1 = key) = false := by
        rw [any_eq_false]
        intro row hrow heq
        obtain ⟨k, hk, hlast⟩ := mem_filterMap.mp hrow
        obtain ⟨value, -, rfl⟩ := Option.map_eq_some_iff.mp hlast
        exact hnew (of_decide_eq_true heq ▸ hk)
      have hlast : lastRow (log ++ [.insert key value]) key = some (key, value) := by
        have hself := lastValue_concat_self log (.insert key value)
        show (lastValue _ (Write.insert key value).key).map _ = _
        rw [hself]
        rfl
      rw [writeRow, hnone, if_neg Bool.false_ne_true, filterMap_append]
      congr 1
      · refine filterMap_congr fun k hk => ?_
        have hne : (Write.insert key value).key ≠ k := by
          rintro rfl
          exact hnew hk
        rw [lastRow, lastRow, lastValue_concat_other log hne]
      · show _ = [key].filterMap _
        rw [filterMap_cons_some hlast, filterMap_nil]
    | update key value =>
      show _ = (insertedKeys log ++ []).filterMap _
      rw [writeRow, append_nil, map_filterMap]
      refine filterMap_congr fun k hk => ?_
      by_cases heq : k = key
      case pos =>
        subst heq
        obtain ⟨before, hbefore⟩ := lastValue_isSome hk
        have hself := lastValue_concat_self log (.update k value)
        have hafter : lastValue (log ++ [.update k value]) k = some value := hself
        rw [lastRow, lastRow, hbefore, hafter]
        simp
      case neg =>
      have hne : (Write.update key value).key ≠ k := fun h => heq h.symm
      rw [lastRow, lastRow, lastValue_concat_other log hne]
      cases lastValue log k with
      | none => rfl
      | some => simp [heq]

/-- The keys of a table are those that were inserted. -/
theorem keys_writeRow (rows : List (K × V)) (w : Write K V) :
    (writeRow rows w).map (·.1) = rows.map (·.1) ∨
      (∃ value, w = .insert w.key value) ∧ w.key ∉ rows.map (·.1) ∧
        (writeRow rows w).map (·.1) = rows.map (·.1) ++ [w.key] := by
  cases w with
  | insert key value =>
    by_cases hthere : (rows.any fun row => row.1 = key) = true
    case pos => exact .inl (congrArg (List.map _) (if_pos hthere))
    case neg =>
    have hrows : writeRow rows (.insert key value) = rows ++ [(key, value)] := if_neg hthere
    refine .inr ⟨⟨value, rfl⟩, ?_, by rw [hrows, map_append]; rfl⟩
    intro hmem
    obtain ⟨row, hrow, rfl⟩ := mem_map.mp hmem
    exact hthere (any_eq_true.mpr ⟨row, hrow, decide_eq_true rfl⟩)
  | update key =>
    left
    show (rows.map _).map _ = _
    rw [map_map]
    refine map_congr_left fun row _ => ?_
    by_cases heq : row.1 = key <;> simp [heq]

theorem nodup_writeRows (log : List (Write K V)) : ((writeRows log).map (·.1)).Nodup := by
  induction log using List.reverseRecOn with
  | nil => exact nodup_nil
  | append_singleton log w ih =>
    have hfold : writeRows (log ++ [w]) = writeRow (writeRows log) w := foldl_append ..
    rw [hfold]
    rcases keys_writeRow (writeRows log) w with hsame | ⟨-, hnew, hkeys⟩
    · rw [hsame]
      exact ih
    · rw [hkeys]
      exact nodup_append.mpr ⟨ih, nodup_singleton _, fun a ha b hb heq =>
        hnew (mem_singleton.mp hb ▸ heq ▸ ha)⟩

/-- Two lists that are made of the rows of a table are the same if and only if every row makes the
same. -/
theorem perm_map_rows {B : Type*} {rows : List (K × V)} (hnodup : (rows.map (·.1)).Nodup)
    {f g : K × V → B} (id : B → K) (hf : ∀ row, id (f row) = row.1) (hg : ∀ row, id (g row) = row.1) :
    (rows.map f).Perm (rows.map g) ↔ ∀ row ∈ rows, f row = g row := by
  constructor
  · intro hperm row hrow
    obtain ⟨found, hfound, heq⟩ := mem_map.mp (hperm.subset (mem_map_of_mem hrow))
    have hkey : found.1 = row.1 := by
      rw [← hg found, heq, hf]
    rw [inj_on_of_nodup_map hnodup hfound hrow hkey] at heq
    exact heq.symm
  · intro hsame
    rw [map_congr_left hsame]

/-! ## Logs with the same writes -/

/-- The same inserts in the same order, and the same writes of every key. -/
structure SameWrites (other log : List (Write K V)) : Prop where
  inserts : insertedKeys other = insertedKeys log
  keys : ∀ key, keyLog other key = keyLog log key

theorem SameWrites.refl (log : List (Write K V)) : SameWrites log log := ⟨rfl, fun _ => rfl⟩

/-- The interleaving of the writes of different keys does not matter. -/
theorem SameWrites.table_eq (h : SameWrites other log) (hlog : InsertedFirst log) :
    writeRows other = writeRows log := by
  have hother : InsertedFirst other := fun key => h.keys key ▸ hlog key
  rw [Base.table_eq hlog, Base.table_eq hother, lastRows, h.inserts]
  refine filterMap_congr fun key _ => ?_
  rw [lastRow, lastRow, lastValue, lastValue, h.keys]

theorem SameWrites.append (h : SameWrites other log) (more : List (Write K V)) :
    SameWrites (other ++ more) (log ++ more) where
  inserts := by rw [insertedKeys_append, insertedKeys_append, h.inserts]
  keys key := by rw [keyLog_append, keyLog_append, h.keys]

/-- An insert may overtake the updates of other keys. -/
theorem SameWrites.early {front back : List (Write K V)} {value : V}
    (h : SameWrites (front ++ back) log) (hlog : InsertedFirst (log ++ [.insert key value]))
    (hback : insertedKeys back = []) :
    SameWrites (front ++ .insert key value :: back) (log ++ [.insert key value]) where
  inserts := by
    have hinserts := h.inserts
    rw [insertedKeys_append, hback, append_nil] at hinserts
    rw [insertedKeys_append, insertedKeys_append, ← hinserts]
    congr 1
    exact congrArg (key :: ·) hback
  keys k := by
    have hkeys := h.keys k
    rw [keyLog_append] at hkeys
    rw [← singleton_append, keyLog_append, keyLog_append, keyLog_append]
    by_cases heq : (Write.insert key value).key = k
    case pos =>
      obtain rfl : key = k := heq
      have hfresh := hlog.fresh
      rw [hfresh] at hkeys
      obtain ⟨hfront, hback⟩ := append_eq_nil_iff.mp hkeys
      rw [hfresh, hfront, hback, append_nil]
    case neg =>
      rw [keyLog_other heq, nil_append, append_nil]
      exact hkeys

/-! ## Values that are written in another form -/

variable {U : Type*}

def Write.map (f : V → U) : Write K V → Write K U
  | insert key value => insert key (f value)
  | update key value => update key (f value)

/-- The rows in the other form. -/
def mapRows (f : V → U) (rows : List (K × V)) : List (K × U) :=
  rows.map fun row => (row.1, f row.2)

theorem writeRow_map (f : V → U) (rows : List (K × V)) (w : Write K V) :
    writeRow (mapRows f rows) (w.map f) = mapRows f (writeRow rows w) := by
  cases w with
  | insert key value =>
    have hany : (mapRows f rows).any (fun row => row.1 = key) = rows.any fun row => row.1 = key := by
      unfold mapRows
      rw [List.any_map]
      rfl
    show (if (mapRows f rows).any (fun row => row.1 = key) then _ else _) =
      mapRows f (if rows.any (fun row => row.1 = key) then rows else rows ++ [(key, value)])
    rw [hany]
    split
    · rfl
    · unfold mapRows
      rw [map_append]
      rfl
  | update key =>
    show List.map _ (List.map _ rows) = List.map _ (List.map _ rows)
    rw [map_map, map_map]
    refine map_congr_left fun row _ => ?_
    by_cases heq : row.1 = key <;> simp [heq]

end Bdt.Base
