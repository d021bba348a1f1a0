import RecordMapper.Proofs.Session.Filing
import RecordMapper.Proofs.Value.KeyText

/-! One entry for each key.

The cache knows a row by the text of its key. Every value but a document with doubles in it or one that nests too deep
is read from its text as it was written, so that keys of such values have texts of their own, in any number of parts
and whatever quotes, brackets and commas stand in them. So what is registered is found under its own key and leaves
the entries of all others alone (`files_by_key`). -/
namespace RecordMapper.Cache

/-- What is found after an instance was registered. -/
theorem get?_register {c : Cache} {heap : Heap} {h : Handle} {i : Instance} (hi : heap.get? h = some i)
    (howner : ∀ v ∈ i.persistedKey, v.Legible) {key : List Value} (hkey : ∀ v ∈ key, v.Legible) :
    (c.register heap h).get? i.model.name key = if key = i.persistedKey then some h else c.get? i.model.name key := by
  unfold get?
  rw [filed?_register hi]
  refine if_congr ⟨fun htext => Value.keyText_inj hkey howner htext.2, fun he => ⟨rfl, ?_⟩⟩ rfl rfl
  rw [he]
  rfl

/-- Values that can be read back are read from their texts as they were written, and equal no other ones; what is read
as a document is tidy, so that tidy ones are all there are. Tuples of such values have the same text exactly if they
are the same, and an instance that is registered takes the entry of its key and no other one. -/
theorem files_by_key :
    (∀ v : Value, v.Legible → Value.decode? v.toJson.text = some v ∧ ∀ w : Value, w.equal v = true ↔ w = v) ∧
    (∀ s document, Value.decode? s = some (.json document) → document.Tidy) ∧
    (∀ vs ws : List Value, (∀ v ∈ vs, v.Legible) → (∀ w ∈ ws, w.Legible) →
      (Value.keyText vs = Value.keyText ws ↔ vs = ws)) ∧
    ∀ (c : Cache) (heap : Heap) (h : Handle) (i : Instance), heap.get? h = some i →
      (∀ v ∈ i.persistedKey, v.Legible) → ∀ key : List Value, (∀ v ∈ key, v.Legible) →
        (c.register heap h).get? i.model.name key =
          if key = i.persistedKey then some h else c.get? i.model.name key :=
  ⟨fun _ hv => ⟨hv.decode?_text, fun _ => hv.equal_iff⟩, fun _ _ => Value.isTidy_of_decode?,
    fun _ _ hv hw => ⟨Value.keyText_inj hv hw, congrArg Value.keyText⟩,
    fun _ _ _ _ hi howner _ hkey => get?_register hi howner hkey⟩

/-- Texts with escapes, the integers at the ends of their words, and lists and objects in each other. -/
def nestedDocument : Json :=
  .obj
    [ ("list", .arr [.int (-9223372036854775808), .int 18446744073709551615, .str "\\\x01\"", .obj [], .arr []]),
      ("quote\"", .null) ]

theorem legible_nestedDocument : (Value.json nestedDocument).Legible := by
  refine ⟨by decide +kernel, ?_⟩
  refine .obj (List.forall_mem_singleton.2 (.obj (List.forall_mem_cons.2 ⟨.arr ?_, List.forall_mem_singleton.2 .null⟩)))
  refine List.forall_mem_cons.2 ⟨.int (by decide), List.forall_mem_cons.2 ⟨.int (by decide), ?_⟩⟩
  exact List.forall_mem_cons.2 ⟨.str _, List.forall_mem_cons.2 ⟨.obj nofun, List.forall_mem_singleton.2 (.arr nofun)⟩⟩

/-- Stays, each known by a guest and a room. -/
def stays : Model where
  name := "Stay"
  fields := [{Field.title "Guest" with primaryKey := true}, {Field.title "Room" with primaryKey := true}]

def stay (guest room : String) : Instance :=
  (Instance.new stays).performAll [.set "Guest" (.text guest), .set "Room" (.text room)]

/-- A name that looks like the end of one part of a key and the start of another. -/
def imitation : String := "ADA\"\x7d,\x7b\"Text\":\"1"

def stayHeap : Heap := ⟨#[stay imitation "2"]⟩

/-- A nested document is read back; and the guest whose name looks like two parts of a key is found under that name,
and not under the parts. -/
theorem files_by_key_stays :
    (Value.json nestedDocument).Legible ∧
    Value.decode? (Value.json nestedDocument).toJson.text = some (.json nestedDocument) ∧
    Value.keyText [.json nestedDocument] ≠ Value.keyText [.text nestedDocument.text] ∧
    stayHeap.get? ⟨0⟩ = some (stay imitation "2") ∧ (stay imitation "2").persistedKey = [.text imitation, .text "2"] ∧
    (({} : Cache).register stayHeap ⟨0⟩).get? "Stay" [.text imitation, .text "2"] = some ⟨0⟩ ∧
    (({} : Cache).register stayHeap ⟨0⟩).get? "Stay" [.text "ADA", .text "1", .text "2"] = none := by
  obtain ⟨hreads, -, hkeys, hregister⟩ := files_by_key
  have htexts : ∀ texts : List String, ∀ v ∈ texts.map Value.text, v.Legible := fun texts v hv => by
    obtain ⟨s, -, rfl⟩ := List.mem_map.1 hv
    trivial
  have hkey : (stay imitation "2").persistedKey = [imitation, "2"].map Value.text := by decide +kernel
  have hfiles := hregister {} stayHeap ⟨0⟩ (stay imitation "2") rfl (hkey ▸ htexts _)
  rw [hkey] at hfiles
  refine ⟨legible_nestedDocument, (hreads _ legible_nestedDocument).1, ?_, rfl, hkey, ?_, ?_⟩
  · refine mt (hkeys _ _ (List.forall_mem_singleton.2 legible_nestedDocument) (htexts [nestedDocument.text])).1 ?_
    nofun
  · exact (hfiles _ (htexts [imitation, "2"])).trans (if_pos rfl)
  · exact (hfiles _ (htexts ["ADA", "1", "2"])).trans (if_neg (by decide))

end RecordMapper.Cache
