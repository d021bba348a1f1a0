import RecordMapper.Pattern.Reader
import RecordMapper.Proofs.Session.CacheCalls

/-! Which row an instance with pending changes stands for.

The first pending change keeps a copy of the key, and what looks for the row goes by that copy until
nothing is pending any more: the UPDATE of a save and the place in the cache. The copy is the key that
was committed when the instance was last clean (`persistedKey_performAll`). It is the committed key for
as long as no key field is taken over, or set for the first time, under pending changes; after that it
names a row that the database does not have under that key. -/
namespace RecordMapper

namespace Instance

/-- A call leaves the copy of the key alone while anything is pending, and drops it otherwise. -/
theorem Coherent.persistedKey_perform {i : Instance} (hi : i.Coherent) (call : InstanceCall) :
    (i.perform call).persistedKey =
      if (i.perform call).isDirty then i.persistedKey else (i.perform call).committedKey := by
  have hj := hi.perform call
  split
  · next hdirty =>
    cases call with
    | set name v =>
      unfold Instance.perform at hdirty ⊢
      dsimp only at hdirty ⊢
      split
      · next j hset =>
        rw [hset] at hdirty
        obtain ⟨c, w, hfound, _, ⟨_, rfl⟩ | ⟨hunset, rfl⟩⟩ := set_ok hset
        · rw [isDirty_settle] at hdirty
          rw [persistedKey, keySnapshot_settle, if_pos hdirty]
          rfl
        · -- A field that is set for the first time is not pending, so another one is.
          have hbefore : i.isDirty = true := (hi.isDirty_first hfound hunset).symm.trans hdirty
          obtain ⟨key, hkey⟩ := Option.isSome_iff_exists.1 (hi.snapshot.trans hbefore)
          show Option.getD i.keySnapshot _ = Option.getD i.keySnapshot _
          rw [hkey]
          rfl
      · rfl
    | load name v =>
      unfold Instance.perform at hdirty ⊢
      dsimp only at hdirty ⊢
      split
      · next j hload =>
        rw [hload] at hdirty
        exact (takesOver_load hload).persistedKey_of_isDirty hi hdirty
      · rfl
    | commit => exact i.takesOver_commit.persistedKey_of_isDirty hi hdirty
  · next hclean => exact hj.persistedKey_of_not_isDirty (by simpa using hclean)

/-- The instance as it was when nothing was pending for the last time, `clean` before the calls. -/
def lastClean (clean i : Instance) : List InstanceCall → Instance
  | [] => clean
  | call :: rest => lastClean (if (i.perform call).isDirty then clean else i.perform call) (i.perform call) rest

theorem Coherent.persistedKey_calls {i clean : Instance} (hi : i.Coherent)
    (hkey : i.persistedKey = clean.committedKey) (calls : List InstanceCall) :
    (i.performAll calls).persistedKey = (lastClean clean i calls).committedKey := by
  induction calls generalizing i clean with
  | nil => exact hkey
  | cons call rest ih =>
    refine ih (hi.perform call) ?_
    rw [hi.persistedKey_perform call]
    split
    · exact hkey
    · rfl

/-- A call does not move the committed key while anything is pending. -/
def KeepsPendingKey (i : Instance) (call : InstanceCall) : Prop :=
  (i.perform call).isDirty = true → (i.perform call).committedKey = i.committedKey

/-- The row that an instance is taken for is the one with the committed key for as long as no call
moves that key while anything is pending. -/
theorem Coherent.allSteps_committed_iff {i : Instance} (hi : i.Coherent) (hkey : i.persistedKey = i.committedKey)
    (calls : List InstanceCall) :
    AllSteps Instance.perform (fun i call => (i.perform call).persistedKey = (i.perform call).committedKey) calls i ↔
      AllSteps Instance.perform KeepsPendingKey calls i := by
  induction calls generalizing i with
  | nil => exact Iff.rfl
  | cons call rest ih =>
    have hstep : (i.perform call).persistedKey = (i.perform call).committedKey ↔ i.KeepsPendingKey call := by
      rw [hi.persistedKey_perform call, hkey, KeepsPendingKey]
      split
      · next hdirty => exact ⟨fun h _ => h.symm, fun h => (h hdirty).symm⟩
      · next hclean => exact ⟨fun _ h => absurd h hclean, fun _ => rfl⟩
    constructor
    · exact fun ⟨h, hrest⟩ => ⟨hstep.1 h, (ih (hi.perform call) h).1 hrest⟩
    · exact fun ⟨h, hrest⟩ => ⟨hstep.2 h, (ih (hi.perform call) (hstep.2 h)).2 hrest⟩

/-- After any calls an instance is taken for the row under the key that was committed when it was last
clean. That is the committed key all along exactly if no call moves the committed key while anything is
pending. -/
theorem persistedKey_performAll (m : Model) (calls : List InstanceCall) :
    ((Instance.new m).performAll calls).persistedKey = (lastClean (.new m) (.new m) calls).committedKey ∧
      (AllSteps Instance.perform (fun i call => (i.perform call).persistedKey = (i.perform call).committedKey) calls (.new m) ↔
        AllSteps Instance.perform KeepsPendingKey calls (.new m)) := by
  have hnew := coherent_new m
  have hclean : (Instance.new m).isDirty = false := hnew.snapshot.symm
  have hkey := hnew.persistedKey_of_not_isDirty hclean
  exact ⟨hnew.persistedKey_calls hkey calls, hnew.allSteps_committed_iff hkey calls⟩

/-! ### Moved under a change -/

/-- A person is renamed, and before that is saved the row moves. -/
def movedUnderChange : List InstanceCall :=
  [ .set "ID" (.text "ADA01"), .set "Name" (.text "Ada"), .set "Name" (.text "Eve"), .load "ID" (.text "EVE01") ]

/-- A person is renamed before there is a key at all. -/
def keyedUnderChange : List InstanceCall :=
  [.set "Name" (.text "Ada"), .set "Name" (.text "Eve"), .set "ID" (.text "ADA01")]

/-- The row has the new key, and what is saved next goes to the old one. -/
theorem not_committed_movedUnderChange :
    let moved := (Instance.new Memory.people).performAll movedUnderChange
    let keyed := (Instance.new Memory.people).performAll keyedUnderChange
    (moved.committedKey = [.text "EVE01"] ∧ moved.persistedKey = [.text "ADA01"] ∧
      (moved.updateStatement (Pattern.rules 0) .sqlite).toOption =
        some ⟨"UPDATE \"Person\" SET \"Name\" = ?1 WHERE \"Person\".\"ID\" = 'ADA01'", [.text "Eve"]⟩) ∧
    (keyed.committedKey = [.text "ADA01"] ∧ keyed.persistedKey = [.null]) := by
  decide +kernel

end Instance

end RecordMapper
