import RecordMapper.Proofs.Fetch.Hydrate
import RecordMapper.Proofs.Session.CacheCalls
import RecordMapper.Proofs.Session.Moves
import RecordMapper.Session.Read

/-! What mapping rows to instances does to the cached ones.

A row is mapped to the instance cached for its key. If that has no changes of its own it takes
over all values of the row, which leaves it with the cells of a fresh instance (`cells_takeAll`)
and so in its place: refreshing is a move that never pushes another instance out. -/
namespace RecordMapper

namespace Cell

theorem update_append {name : String} {before : List Cell} (h : ∀ c ∈ before, c.field.name ≠ name)
    (f : Cell → Cell) (rest : List Cell) : update name f (before ++ rest) = before ++ update name f rest := by
  induction before with
  | nil => rfl
  | cons c more ih =>
    rw [List.cons_append, update, if_neg (h c (.head _)), ih fun d hd => h d (.tail _ hd), List.cons_append]

/-- Settling every cell of distinct fields on the values of others makes the same cells. -/
theorem settle_all (before : List Cell) {cells rest : List Cell}
    (hcells : ∀ c ∈ cells, c.isSet = true ∧ c.baseline = c.current)
    (hfields : rest.map (·.field) = cells.map (·.field))
    (hn : ((before ++ cells).map (·.field.name)).Nodup) :
    (cells.map fun c => (c.field.name, c.current)).foldl
      (fun cells change => update change.1 (·.settled change.2) cells) (before ++ rest) = before ++ cells := by
  induction cells generalizing before rest with
  | nil => rw [List.map_eq_nil_iff.1 hfields]; rfl
  | cons c more ih =>
    obtain ⟨d, rest, rfl, hd, hmore⟩ := List.map_eq_cons_iff.1 hfields
    have hbefore : ∀ e ∈ before, e.field.name ≠ c.field.name := by
      rw [List.map_append] at hn
      intro e he
      exact (List.nodup_append.1 hn).2.2 _ (List.mem_map_of_mem he) _ (List.mem_map_of_mem (.head _))
    have hsettled : d.settled c.current = c := by
      obtain ⟨hset, hbaseline⟩ := hcells c (.head _)
      show ({field := d.field, current := c.current, baseline := c.current, isSet := true} : Cell) = c
      rw [hd, ← hset]
      exact congrArg (fun v => ({c with baseline := v} : Cell)) hbaseline.symm
    have hstep : update c.field.name (·.settled c.current) (before ++ d :: rest) = (before ++ [c]) ++ rest := by
      rw [update_append hbefore, update, if_pos (congrArg Field.name hd), hsettled, List.append_assoc]
      rfl
    rw [List.map_cons, List.foldl_cons, hstep, ih _ (fun e he => hcells e (.tail _ he)) hmore]
    · rw [List.append_assoc]
      rfl
    · rw [List.append_assoc]
      exact hn

end Cell

namespace Instance

theorem Coherent.cells_takeAll {i : Instance} (hi : i.Coherent) {changes : List (String × Value)}
    (ht : i.model.Takes changes) :
    (i.takeAll changes).cells =
      changes.foldl (fun cells change => Cell.update change.1 (·.settled change.2) cells) i.cells := by
  induction changes generalizing i with
  | nil => rfl
  | cons change rest ih =>
    obtain ⟨f, hf, hv⟩ := ht change (.head _)
    have hij := i.takesOver_perform_load change.1 change.2
    have hcells : (i.perform (.load change.1 change.2)).cells =
        Cell.update change.1 (·.settled change.2) i.cells := by
      obtain ⟨c, w, hc, hw, hload⟩ := load_ok (hi.load_eq hf hv)
      obtain ⟨c', hc', rfl⟩ := hi.cell?_of_field? hf
      obtain rfl : c = c' := Option.some.inj (hc.symm.trans hc')
      obtain rfl : change.2 = w := Except.ok.inj (hv.symm.trans hw)
      rw [hload, cells_settle]
    show ((i.perform (.load change.1 change.2)).takeAll rest).cells = _
    rw [ih (hij.coherent hi) (hij.model ▸ fun e he => ht e (.tail _ he)), hcells]
    rfl

theorem Fresh.takes {i : Instance} (hi : i.Fresh) (hn : (i.model.fields.map (·.name)).Nodup) :
    i.model.Takes i.setValues := by
  intro change hchange
  rw [hi.setValues] at hchange
  obtain ⟨c, hc, rfl⟩ := List.mem_map.1 hchange
  refine ⟨c.field, Model.field?_of_mem hn ?_, (hi.settled c hc).2.2⟩
  rw [← hi.fields]
  exact List.mem_map_of_mem hc

/-- An instance that takes over a whole row has its cells. -/
theorem Fresh.cells_takeAll {i j : Instance} (hi : i.Fresh) (hj : j.Coherent) (hmodel : j.model = i.model)
    (hn : (i.model.fields.map (·.name)).Nodup) : (j.takeAll i.setValues).cells = i.cells := by
  rw [hj.cells_takeAll (hmodel ▸ hi.takes hn), hi.setValues]
  refine Cell.settle_all [] (fun c hc => ⟨(hi.settled c hc).1, (hi.settled c hc).2.1⟩) ?_ ?_
  · rw [hj.fields, hmodel, hi.fields]
  · rw [← hi.fields, List.map_map] at hn
    exact hn

theorem Fresh.persistedKey_takeAll {i j : Instance} (hi : i.Fresh) (hj : j.Coherent)
    (hmodel : j.model = i.model) (hn : (i.model.fields.map (·.name)).Nodup) :
    (j.takeAll i.setValues).persistedKey = i.primaryKey := by
  have hcells := hi.cells_takeAll hj hmodel hn
  have hclean : (j.takeAll i.setValues).isDirty = false := by
    unfold isDirty
    rw [hcells]
    exact hi.not_isDirty
  have hcoherent := (takesOver_takeAll i.setValues j).coherent hj
  rw [Instance.persistedKey, hcoherent.snapshot_none hclean, primaryKey, hcells]
  rfl

end Instance

namespace Memory

theorem rekey_congr (m : Memory) (h : Handle) {key key' : List Value}
    (hk : Value.keyText key = Value.keyText key') : m.rekey h key = m.rekey h key' := by
  unfold rekey Cache.rekey
  rw [hk]

end Memory

namespace Session

/-- What a refresh needs: a fresh instance, and a cached one of its model under its key. -/
structure Refreshes (m : Memory) (h : Handle) (i : Instance) : Prop where
  filed : m.Filed
  coherent : m.heap.Coherent
  fresh : i.Fresh
  names : (i.model.fields.map (·.name)).Nodup
  cached : m.cache.get? i.model.name i.primaryKey = some h
  model : ∀ j, m.heap.get? h = some j → j.model = i.model

theorem runOn_refresh {m : Memory} {h : Handle} {i : Instance} (hr : Refreshes m h i) :
    (refresh h i).runOn m =
      (.ok (), if m.heap.holds (·.isDirty) h then m else m.move (·.takeAll i.setValues) h) := by
  have hloaded : (Memory.loadAll h i.setValues).runOn m =
      (.ok (), {m with heap := m.heap.modify h (·.takeAll i.setValues)}) := Memory.loadAll_eq fun j hj =>
    ⟨hr.coherent hj, hr.model j hj ▸ hr.fresh.takes hr.names⟩
  have hkey : Value.keyText i.primaryKey = Value.keyText (m.persistedKey h) := by
    obtain ⟨j, hj, -, hkey⟩ := hr.filed.under hr.cached
    rw [← hkey, Memory.persistedKey, hj]
    rfl
  unfold refresh
  rw [Attempt.runOn_bind, Attempt.runOn_get]
  dsimp only
  cases m.heap.holds (·.isDirty) h with
  | true => rfl
  | false =>
    show (do Memory.loadAll h i.setValues; modify fun m => m.rekey h i.primaryKey :
      Attempt Memory Unit).runOn m = _
    rw [Attempt.runOn_bind, hloaded]
    exact congrArg (Prod.mk _) (Memory.rekey_congr _ h hkey)

/-- A refreshed instance stays in its place, and so do the others. -/
theorem follows_refresh {m : Memory} {h : Handle} {i : Instance} (hr : Refreshes m h i) :
    m.Follows ((refresh h i).runOn m).2 ∧ m.KeepsCached ((refresh h i).runOn m).2 ∧
      m.KeepsPendingKeys ((refresh h i).runOn m).2 := by
  rw [runOn_refresh hr]
  dsimp only
  split
  · exact ⟨hr.filed.follows_refl, fun _ h => h, Memory.keepsPendingKeys_of_eq rfl⟩
  · next hclean =>
    have htakes := Instance.takesOver_takeAll i.setValues
    obtain ⟨j, hj, hmodel, hkey⟩ := hr.filed.under hr.cached
    refine ⟨hr.filed.follows_move htakes h,
      (hr.filed.keepsCached_move_iff htakes h).2 fun _ k hk => ?_, fun k a b ha hb hd => ?_⟩
    · obtain ⟨j', hj', hk⟩ := Memory.keyHolder?_eq_some_iff.1 hk
      have hj' : (m.heap.modify h (·.takeAll i.setValues)).get? h = some j' := hj'
      rw [Heap.get?_modify_self, hj] at hj'
      obtain rfl : j.takeAll i.setValues = j' := Option.some.inj hj'
      have hkey' : (j.takeAll i.setValues).keyText = Value.keyText i.primaryKey := by
        unfold Instance.keyText
        rw [hr.fresh.persistedKey_takeAll (hr.coherent hj) (hr.model j hj) hr.names]
      have hk : m.cache.filed? (j.takeAll i.setValues).model.name (j.takeAll i.setValues).keyText = some k := hk
      have hcached : m.cache.filed? i.model.name (Value.keyText i.primaryKey) = some h := hr.cached
      rw [(htakes j).model, hmodel, hkey', hcached] at hk
      exact (Option.some.inj hk).symm
    · have hb : (m.heap.modify h (·.takeAll i.setValues)).get? k = some b := hb
      rw [Heap.get?_modify] at hb
      split at hb
      · next he =>
        rw [ha] at hb
        obtain rfl : a.takeAll i.setValues = b := Option.some.inj hb
        have hdirty := ((htakes a).pending (hr.coherent ha) hd).1
        exact absurd ((Heap.holds_of_get? (he ▸ ha) _).trans hdirty) hclean
      · rw [Option.some.inj (ha.symm.trans hb)]

/-! ### Mapping -/

variable {β : Type} {s : Session β} {t : SessionState β} {i : Instance}

/-- A new instance is marked, filed and tracked. -/
theorem runOn_adopt (hcache : s.useCache = true) (t : SessionState β) (i : Instance) :
    let j : Instance := {i with owner := some s.owner}
    (s.adopt i).runOn t = (.ok (t.heap.add j).1,
      {t with
        heap := (t.heap.add j).2
        cache := t.cache.register (t.heap.add j).2 (t.heap.add j).1
        tracker := t.tracker.track (t.heap.add j).1}) := by
  intro j
  show (_, SessionState.welcome _ s.useCache _) = _
  rw [hcache]
  rfl

/-- An instance that is cached for the row is used in place of the new one. -/
theorem runOn_resolve_cached (hcache : s.useCache = true) {h : Handle} (hr : Refreshes t.memory h i) :
    (s.resolve i).runOn t = (.ok h, t.setMemory
      (if t.heap.holds (·.isDirty) h then t.memory else t.memory.move (·.takeAll i.setValues) h)) := by
  have hfound : t.cache.get? i.model.name i.primaryKey = some h := hr.cached
  unfold resolve
  rw [Attempt.runOn_bind, Attempt.runOn_get, hcache]
  dsimp only
  rw [if_pos rfl, hfound]
  dsimp only
  rw [Attempt.runOn_bind, onMemory, Attempt.runOn_within, runOn_refresh hr]
  rfl

/-- Without one the new instance is taken over. -/
theorem runOn_resolve_new (hnone : t.cache.get? i.model.name i.primaryKey = none) :
    (s.resolve i).runOn t = (s.adopt i).runOn t := by
  unfold resolve
  rw [Attempt.runOn_bind, Attempt.runOn_get]
  dsimp only
  rw [hnone, ite_self]

end Session

end RecordMapper
