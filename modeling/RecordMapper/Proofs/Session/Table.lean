import Mathlib.Data.List.Nodup
import RecordMapper.Proofs.Instance.Record
import RecordMapper.Proofs.Session.CacheCalls

/-! A cache beside the table that it mirrors.

A table holds rows under keys of their own. A bulk update assigns values in the rows that satisfy its
condition, all at once, and it is only carried out if the keys are still distinct then. The cache
repeats it one instance after the other, and may find the key that an instance moves to still taken by
one that is yet to move. That does not happen (`Replays.movesFreely`): the values that are assigned are
the same for all, so that the other one would stay under that key, and two rows would share it. So a
cache whose instances are clean and equal their rows has the same of the updated table
(`reconcileUpdate_mirrors`). -/
namespace RecordMapper

/-- The row after a bulk update. -/
def Record.updated (condition : Condition) (changes : List (String × Value)) (row : Record) : Record :=
  if condition.holdsOf row.value? then row.assign changes else row

/-- The rows of a model under distinct keys. -/
structure Table (m : Model) where
  rows : List Record
  columns : (m.fields.map (·.name)).Nodup
  suits : ∀ row ∈ rows, m.Suits row
  distinct : (rows.map Record.key).Nodup

namespace Table

variable {m : Model}

/-- The row under a key. -/
def row? (t : Table m) (key : List Value) : Option Record := t.rows.find? (·.key = key)

theorem suits_updated (t : Table m) (condition : Condition) {changes : List (String × Value)}
    (ht : m.Takes changes) : ∀ row ∈ t.rows.map (Record.updated condition changes), m.Suits row := by
  intro row hrow
  obtain ⟨old, hold, rfl⟩ := List.mem_map.1 hrow
  unfold Record.updated
  split
  · exact (t.suits old hold).assign t.columns ht
  · exact t.suits old hold

/-- A bulk update of all rows that satisfy a condition. There is none that would give two rows one
key. -/
def update? (t : Table m) (condition : Condition) (changes : List (String × Value)) (ht : m.Takes changes) :
    Option (Table m) :=
  if h : ((t.rows.map (Record.updated condition changes)).map Record.key).Nodup then
    some ⟨t.rows.map (Record.updated condition changes), t.columns, t.suits_updated condition ht, h⟩
  else none

theorem rows_update? {t t' : Table m} {condition : Condition} {changes : List (String × Value)}
    {ht : m.Takes changes} (h : t.update? condition changes ht = some t') :
    t'.rows = t.rows.map (Record.updated condition changes) := by
  unfold update? at h
  split at h
  · cases h
    rfl
  · cases h

theorem mem_rows_of_row? {t : Table m} {key : List Value} {row : Record} (h : t.row? key = some row) :
    row ∈ t.rows := List.mem_of_find?_eq_some h

theorem row?_of_mem {t : Table m} {row : Record} (h : row ∈ t.rows) : t.row? row.key = some row :=
  find?_of_nodup_map t.distinct h

/-- Rows that an update gives one key are the same. -/
theorem eq_of_key_updated {t t' : Table m} {condition : Condition} {changes : List (String × Value)}
    {ht : m.Takes changes} (hu : t.update? condition changes ht = some t') {row row' : Record}
    (h : row ∈ t.rows) (h' : row' ∈ t.rows)
    (hkey : (row.updated condition changes).key = (row'.updated condition changes).key) : row = row' := by
  have hdistinct := t'.distinct
  rw [rows_update? hu, List.map_map] at hdistinct
  exact List.inj_on_of_nodup_map hdistinct h h' hkey

end Table

namespace Memory

/-- Every cached instance of a model is clean and equals its row. -/
def Mirrors {m : Model} (memory : Memory) (t : Table m) : Prop :=
  ∀ {h : Handle} {i : Instance}, memory.cache.contains memory.heap h = true → memory.heap.get? h = some i →
    i.model.name = m.name → i.model = m ∧ i.isDirty = false ∧ t.row? i.primaryKey = some i.record

section

variable {m : Model} {memory : Memory} {t t' : Table m} {condition : Condition} {changes : List (String × Value)}

/-- What holds while a bulk update is repeated, with some matches still to move: another cached instance
has the row that it had before, or that after the update. -/
structure Replays (memory : Memory) (m : Model) (condition : Condition) (changes : List (String × Value))
    (rest : List Handle) (s : Memory) : Prop where
  filed : s.Filed
  coherent : s.heap.Coherent
  waiting : ∀ h ∈ rest, s.heap.get? h = memory.heap.get? h
  rows : ∀ {h : Handle} {j : Instance}, s.cache.contains s.heap h = true → s.heap.get? h = some j →
    ∃ i, memory.heap.get? h = some i ∧ memory.cache.contains memory.heap h = true ∧ j.model = i.model ∧
      (i.model = m → j.isDirty = false ∧
        (h ∈ rest ∧ j.record = i.record ∨ j.record = i.record.updated condition changes))

/-- A cached instance of the model whose row satisfies the condition. -/
def Matches (memory : Memory) (m : Model) (condition : Condition) (h : Handle) : Prop :=
  ∃ i, memory.heap.get? h = some i ∧ memory.cache.contains memory.heap h = true ∧ i.model = m ∧
    condition.evaluate i = true

theorem Mirrors.matches_of_mem (hm : memory.Mirrors t) (hfiled : memory.Filed) {h : Handle}
    (hh : h ∈ memory.cachedWith m.name condition.evaluate) : memory.Matches m condition h := by
  obtain ⟨hc, i, hi, hname, hholds⟩ := hfiled.mem_cachedWith.1 hh
  exact ⟨i, hi, hc, (hm hc hi hname).1, hholds⟩

/-- The key of a row is where its clean instance is filed. -/
theorem persistedKey_eq_key {j : Instance} (hj : j.Coherent) (hclean : j.isDirty = false) :
    j.persistedKey = j.record.key := by
  rw [hj.persistedKey_of_not_isDirty hclean, j.key_record]

theorem Mirrors.replays (hm : memory.Mirrors t) (hfiled : memory.Filed) (hcoherent : memory.heap.Coherent) :
    Replays memory m condition changes (memory.cachedWith m.name condition.evaluate) memory where
  filed := hfiled
  coherent := hcoherent
  waiting _ _ := rfl
  rows {h i} hc hi := by
    refine ⟨i, hi, hc, rfl, fun hmodel => ?_⟩
    obtain ⟨-, hclean, -⟩ := hm hc hi (congrArg Model.name hmodel)
    refine ⟨hclean, ?_⟩
    by_cases hmatch : condition.evaluate i = true
    · exact .inl ⟨hfiled.mem_cachedWith.2 ⟨hc, i, hi, congrArg Model.name hmodel, hmatch⟩, rfl⟩
    · right
      rw [Instance.evaluate_of_not_isDirty hclean] at hmatch
      rw [Record.updated, if_neg hmatch]

variable (hcoherent : memory.heap.Coherent) (hm : memory.Mirrors t) (ht : m.Takes changes)
  (hn : (changes.map (·.1)).Nodup)
include hcoherent hm ht hn

/-- A match that has taken the values over has the updated row. -/
theorem record_moved {h : Handle} {i : Instance} (hi : memory.heap.get? h = some i)
    (hc : memory.cache.contains memory.heap h = true) (hmodel : i.model = m) (hmatch : condition.evaluate i = true) :
    (i.takeAll changes).isDirty = false ∧ (i.takeAll changes).record = i.record.updated condition changes ∧
      i.record.updated condition changes = i.record.assign changes := by
  obtain ⟨-, hclean, -⟩ := hm hc hi (congrArg Model.name hmodel)
  have hupdated : i.record.updated condition changes = i.record.assign changes := by
    rw [Instance.evaluate_of_not_isDirty hclean] at hmatch
    rw [Record.updated, if_pos hmatch]
  refine ⟨?_, ?_, hupdated⟩
  · rw [← Bool.not_eq_true]
    exact fun hd => absurd ((i.takesOver_takeAll changes).pending (hcoherent hi) hd).1 (by rw [hclean]; decide)
  · rw [hupdated]
    exact (hcoherent hi).record_takeAll (hmodel ▸ t.columns) (hmodel ▸ ht) hn

theorem Replays.move {h : Handle} {rest : List Handle} {s : Memory}
    (hs : Replays memory m condition changes (h :: rest) s) (hall : ∀ k ∈ h :: rest, memory.Matches m condition k)
    (hnew : h ∉ rest) : Replays memory m condition changes rest (s.move (·.takeAll changes) h) := by
  have hfollows := hs.filed.follows_move (Instance.takesOver_takeAll changes) h
  refine ⟨hfollows.filed, hfollows.heap.coherent hs.coherent, fun k hk => ?_, fun {k j} hc hj => ?_⟩
  · have hne : k ≠ h := fun he => hnew (he ▸ hk)
    exact (s.heap.get?_modify_of_ne hne _).trans (hs.waiting k (.tail _ hk))
  · have hj : (s.heap.modify h (·.takeAll changes)).get? k = some j := hj
    by_cases hk : k = h
    · subst hk
      obtain ⟨i, hi, hci, hmodel, hmatch⟩ := hall k (.head _)
      rw [Heap.get?_modify_self, hs.waiting k (.head _), hi] at hj
      obtain rfl : i.takeAll changes = j := Option.some.inj hj
      obtain ⟨hclean, hrecord, -⟩ := record_moved hcoherent hm ht hn hi hci hmodel hmatch
      exact ⟨i, hi, hci, (i.takesOver_takeAll changes).model, fun _ => ⟨hclean, .inr hrecord⟩⟩
    · rw [Heap.get?_modify_of_ne _ hk] at hj
      obtain ⟨i, hi, hci, hmodel, hrows⟩ := hs.rows (hfollows.cached hc) hj
      refine ⟨i, hi, hci, hmodel, fun h => ⟨(hrows h).1, (hrows h).2.imp_left fun ⟨hmem, hrecord⟩ => ⟨?_, hrecord⟩⟩⟩
      exact (List.mem_cons.1 hmem).resolve_left hk

variable (hu : t.update? condition changes ht = some t')
include hu

/-- The key that a match moves to is free, or its own: whoever has it already has it after the update
too. -/
theorem Replays.movesFreely {h : Handle} {rest : List Handle} {s : Memory}
    (hs : Replays memory m condition changes (h :: rest) s) (hall : ∀ k ∈ h :: rest, memory.Matches m condition k) :
    s.MovesFreely (·.takeAll changes) h := by
  intro _ k hk
  obtain ⟨j, hj, hheld⟩ := keyHolder?_eq_some_iff.1 hk
  obtain ⟨i, hi, hc, hmodel, hmatch⟩ := hall h (.head _)
  have hj : (s.heap.modify h (·.takeAll changes)).get? h = some j := hj
  rw [Heap.get?_modify_self, hs.waiting h (.head _), hi] at hj
  obtain rfl : i.takeAll changes = j := Option.some.inj hj
  obtain ⟨hclean, hrecord, hassign⟩ := record_moved hcoherent hm ht hn hi hc hmodel hmatch
  have htakes := i.takesOver_takeAll changes
  have hheld : s.cache.filed? (i.takeAll changes).model.name (i.takeAll changes).keyText = some k := hheld
  -- The holder of the key, and its row before the update.
  have hck := hs.filed.contains hheld
  obtain ⟨l, hl, hname, htext⟩ := hs.filed.under hheld
  obtain ⟨i', hi', hc', hmodel', hrows⟩ := hs.rows hck hl
  rw [htakes.model, hmodel, hmodel'] at hname
  obtain ⟨hmodel'', hclean', hrow'⟩ := hm hc' hi' hname
  obtain ⟨hcleanl, hrecordl⟩ := hrows hmodel''
  obtain ⟨-, -, hrow⟩ := hm hc hi (congrArg Model.name hmodel)
  have hmem := Table.mem_rows_of_row? hrow
  have hmem' := Table.mem_rows_of_row? hrow'
  have hsuits : ∀ {row : Record}, row ∈ t.rows → m.Suits (row.updated condition changes) := fun hrow =>
    t.suits_updated condition ht _ (List.mem_map_of_mem hrow)
  -- It holds the key in the old table or in the new one.
  have hkey : l.record.key = (i.record.updated condition changes).key := by
    have hsuitsl : m.Suits l.record := by
      rcases hrecordl with ⟨-, hold⟩ | hnew
      · exact hold ▸ t.suits _ hmem'
      · exact hnew ▸ hsuits hmem'
    refine hsuitsl.key_inj (hsuits hmem) ?_
    rw [← hrecord, ← persistedKey_eq_key (hs.coherent hl) hcleanl,
      ← persistedKey_eq_key (htakes.coherent (hcoherent hi)) hclean]
    exact htext
  have hsame : i'.record = i.record := by
    refine Table.eq_of_key_updated hu hmem' hmem ?_
    rcases hrecordl with ⟨hwaits, hold⟩ | hnew
    · -- The holder is a match that is yet to move, and would stay where it is.
      obtain ⟨i'', hi'', -, -, hmatch'⟩ := hall k hwaits
      obtain rfl : i' = i'' := Option.some.inj (hi'.symm.trans hi'')
      obtain ⟨-, -, hassign'⟩ := record_moved hcoherent hm ht hn hi' hc' hmodel'' hmatch'
      rw [hassign, hassign']
      refine Record.key_assign_eq ?_ (by rw [← hold, hkey, hassign])
      rw [(t.suits _ hmem').fields, (t.suits _ hmem).fields]
    · rw [← hnew, hkey]
  refine Filed.eq_of_contains hc' hc hi' hi (by rw [hmodel'', hmodel]) ?_
  rw [persistedKey_eq_key (hcoherent hi') hclean', hsame,
    persistedKey_eq_key (hcoherent hi) (hm hc hi (congrArg Model.name hmodel)).2.1]

/-- Each match moves freely, and in the end all of them have moved. -/
theorem Replays.moveAll {rest : List Handle} {s : Memory} (hs : Replays memory m condition changes rest s)
    (hall : ∀ k ∈ rest, memory.Matches m condition k) (hnodup : rest.Nodup) :
    AllSteps (Memory.move (·.takeAll changes)) (MovesFreely (·.takeAll changes)) rest s ∧
      Replays memory m condition changes [] (rest.foldl (Memory.move (·.takeAll changes)) s) := by
  induction rest generalizing s with
  | nil => exact ⟨trivial, hs⟩
  | cons h rest ih =>
    obtain ⟨hnew, hnodup⟩ := List.nodup_cons.1 hnodup
    have hstep := hs.move hcoherent hm ht hn hall hnew
    obtain ⟨hfree, hend⟩ := ih hstep (fun k hk => hall k (.tail _ hk)) hnodup
    exact ⟨⟨hs.movesFreely hcoherent hm ht hn hu hall, hfree⟩, hend⟩

end

/-- After a bulk update that the table has carried out, its repetition on the cache leaves the same
instances cached, each of the model with its updated row and under the key of that. -/
theorem reconcileUpdate_mirrors {m : Model} {memory : Memory} {t t' : Table m} {condition : Condition}
    {changes : List (String × Value)} (hfiled : memory.Filed) (hcoherent : memory.heap.Coherent)
    (hm : memory.Mirrors t) (ht : m.Takes changes) (hn : (changes.map (·.1)).Nodup)
    (hu : t.update? condition changes ht = some t') :
    ∃ n memory', (reconcileUpdate m.name condition changes).runOn memory = (.ok n, memory') ∧
      memory'.Filed ∧ memory'.Mirrors t' ∧
      (∀ h, memory'.cache.contains memory'.heap h = true ↔ memory.cache.contains memory.heap h = true) ∧
      ∀ h i, memory.cache.contains memory.heap h = true → memory.heap.get? h = some i → i.model = m →
        ∃ j, memory'.heap.get? h = some j ∧ j.isDirty = false ∧ j.record = i.record.updated condition changes ∧
          t'.row? j.primaryKey = some j.record ∧ memory'.cache.get? m.name j.primaryKey = some h := by
  let matched := memory.cachedWith m.name condition.evaluate
  have hall : ∀ h ∈ matched, memory.Matches m condition h := fun h => hm.matches_of_mem hfiled
  have htakes : ∀ h ∈ memory.cache.entries m.name, ∀ i, memory.heap.get? h = some i → i.model.Takes changes := by
    intro h hh i hi
    obtain ⟨hc, i', hi', hname⟩ := hfiled.mem_entries.1 hh
    obtain rfl : i' = i := Option.some.inj (hi'.symm.trans hi)
    exact (hm hc hi hname).1 ▸ ht
  obtain ⟨hfree, hend⟩ := (hm.replays hfiled hcoherent).moveAll hcoherent hm ht hn hu hall
    ((hfiled.nodup_entries m.name).filter _)
  obtain ⟨hfollows, hkeeps⟩ := hfiled.keepsCached_moveAll_iff (Instance.takesOver_takeAll changes) matched
  have hkeeps := hkeeps.2 hfree
  -- The row of a cached instance of the model at the end.
  have hrow : ∀ {h i j}, memory.cache.contains memory.heap h = true → memory.heap.get? h = some i → i.model = m →
      (matched.foldl (Memory.move (·.takeAll changes)) memory).heap.get? h = some j →
      j.isDirty = false ∧ j.model = m ∧ j.record = i.record.updated condition changes ∧
        t'.row? j.primaryKey = some j.record := by
    intro h i j hc hi hmodel hj
    obtain ⟨i', hi', -, hsame, hrecord⟩ := hend.rows (hkeeps h hc) hj
    obtain rfl : i' = i := Option.some.inj (hi'.symm.trans hi)
    obtain ⟨hclean, hrecord⟩ := hrecord hmodel
    have hrecord := hrecord.resolve_left fun h => absurd h.1 List.not_mem_nil
    refine ⟨hclean, hsame.trans hmodel, hrecord, ?_⟩
    have hmem := Table.mem_rows_of_row? (hm hc hi (congrArg Model.name hmodel)).2.2
    rw [Instance.primaryKey_of_not_isDirty hclean, ← j.key_record]
    refine Table.row?_of_mem ?_
    rw [Table.rows_update? hu, hrecord]
    exact List.mem_map_of_mem hmem
  refine ⟨_, _, reconcileUpdate_eq hcoherent htakes, hfollows.filed, fun {h j} hc hj hname => ?_,
    fun h => ⟨hfollows.cached, hkeeps h⟩, fun h i hc hi hmodel => ?_⟩
  · obtain ⟨i, hi, hij⟩ := hfollows.heap.before hj
    rw [hij.model] at hname
    have hci := hfollows.cached hc
    obtain ⟨hclean, hmodel, -, hfound⟩ := hrow hci hi (hm hci hi hname).1 hj
    exact ⟨hmodel, hclean, hfound⟩
  · obtain ⟨j, hj, -⟩ := hfollows.heap.kept hi
    obtain ⟨hclean, hmodel', hrecord, hfound⟩ := hrow hc hi hmodel hj
    refine ⟨j, hj, hclean, hrecord, hfound, ?_⟩
    have hfiledj := (Cache.contains_iff_filed hj).1 (hkeeps h hc)
    have hkey : j.persistedKey = j.primaryKey := by
      rw [Instance.persistedKey, (hend.coherent hj).snapshot_none hclean]
      rfl
    rw [hmodel', Instance.keyText, hkey] at hfiledj
    exact hfiledj

/-! ### Two teams become one -/

/-- Seats under a team and a number. -/
def seats : Model :=
  { name := "Seat"
    fields := [{Field.shortId "Team" with primaryKey := true}, {Field.int "No" 1 99 with primaryKey := true},
      Field.title "Name"] }

def seatRow (team : String) (no : Int64) (name : String) : Record :=
  seats.fields.zip [.text team, .bigInt no, .text name]

/-- Four seats, the last of which nobody has read. -/
def seatTable : Table seats where
  rows := [seatRow "RED01" 1 "Ada", seatRow "RED01" 2 "Bob", seatRow "BLU01" 3 "Eve", seatRow "BLU01" 4 "Max"]
  columns := by decide
  suits row hrow := by
    have hall : ∀ team no name, seats.Suits (seatRow team no name) := fun team no name =>
      ⟨rfl, by simp [seatRow, seats, Field.coerce, FieldKind.coerce, Field.shortId, Field.idOf, Field.int,
        Field.title, Field.text, Except.mapError]⟩
    simp only [List.mem_cons, List.not_mem_nil, or_false] at hrow
    rcases hrow with rfl | rfl | rfl | rfl
    all_goals exact hall _ _ _
  distinct := by decide +kernel

/-- The instances of three of the seats. -/
def seated : Memory :=
  let taken (team : String) (no : Int32) (name : String) : CacheCall :=
    .create seats [.set "Team" (.text team), .set "No" (.int no), .set "Name" (.text name)] none
  ({} : Memory).performAll [taken "RED01" 1 "Ada", taken "RED01" 2 "Bob", taken "BLU01" 3 "Eve",
    .register ⟨2⟩, .register ⟨0⟩, .register ⟨1⟩]

theorem mirrors_of_all {m : Model} {memory : Memory} {t : Table m}
    (h : ∀ i ∈ memory.heap.instances.toList, i.model = m ∧ i.isDirty = false ∧ t.row? i.primaryKey = some i.record) :
    memory.Mirrors t := fun _ hi _ => h _ (Array.mem_toList_iff.2 (Array.mem_of_getElem? hi))

theorem mirrors_seated :
    seated.Filed ∧ seated.Mirrors seatTable ∧
      ∃ (ht : seats.Takes [("Team", .text "BLU01")]) (t' : Table seats),
        seatTable.update? (.nullCheck "Seat" "Team" true) [("Team", .text "BLU01")] ht = some t' ∧
        ∃ n memory', (reconcileUpdate "Seat" (.nullCheck "Seat" "Team" true) [("Team", .text "BLU01")]).runOn seated =
          (.ok n, memory') ∧ memory'.Mirrors t' ∧
          ∀ h, memory'.cache.contains memory'.heap h = true ↔ seated.cache.contains seated.heap h = true := by
  have hsound : seated.Sound := by
    refine AllSteps.invariant (fun _ _ hm hp => hm.perform hp) ?_ sound_empty
    refine ⟨trivial, trivial, trivial, ?_, ?_, ?_, trivial⟩
    all_goals
      show ∀ i ∈ Heap.get? _ _, _
      decide +kernel
  have hmirrors : seated.Mirrors seatTable := mirrors_of_all (by decide +kernel)
  have ht : seats.Takes [("Team", .text "BLU01")] := fun change hchange => by
    obtain rfl := List.mem_singleton.1 hchange
    exact ⟨_, rfl, rfl⟩
  have hdistinct : ((seatTable.rows.map (Record.updated (.nullCheck "Seat" "Team" true) [("Team", .text "BLU01")])).map
      Record.key).Nodup := by
    decide +kernel
  have hu : seatTable.update? (.nullCheck "Seat" "Team" true) [("Team", .text "BLU01")] ht = some _ := dif_pos hdistinct
  obtain ⟨n, memory', hrun, -, hafter, hcached, -⟩ :=
    reconcileUpdate_mirrors hsound.filed hsound.coherent hmirrors ht (by decide) hu
  exact ⟨hsound.filed, hmirrors, ht, _, hu, n, memory', hrun, hafter, hcached⟩

end Memory

end RecordMapper
