import AttestedVault.Key.Record
import AttestedVault.Proofs.Clock
import AttestedVault.Proofs.JsonText

/-!
# Records as text

A record is what its JSON reads back as.
-/

namespace AttestedVault.KeyRecord

def jsonFields (r : KeyRecord) : List (String × Json) := [
  ("id", .text (some r.id)),
  ("encryptedDek", .text (some r.encryptedDek)),
  ("iv", .text (some r.iv)),
  ("authTag", .text (some r.authTag)),
  ("keyVersion", .text (some r.version)),
  ("masterKeyId", .text (some r.masterKeyId)),
  ("active", .bool r.active),
  ("createdAt", .text (some (Rfc3339.toText r.createdAt)))]

theorem parse?_toJsonText (r : KeyRecord) :
    Json.parse? r.toJsonText = some (.object (Json.named r.jsonFields)) := by
  have text (name s : String) : name = name ∧ Json.Writes (Json.writeText s) (.text (some s)) :=
    ⟨rfl, Json.writes_text s⟩
  refine Json.parse?_writeObject ?_
  refine .cons (text _ _) (.cons (text _ _) (.cons (text _ _) (.cons (text _ _) (.cons (text _ _)
    (.cons (text _ _) (.cons ⟨rfl, ?flag⟩ (.cons (text _ _) .nil)))))))
  case flag => exact Json.writes_flag r.active

theorem ofJson?_jsonFields (r : KeyRecord) : ofJson? (.object (Json.named r.jsonFields)) = some r := by
  have hn : (r.jsonFields.map Prod.fst).Nodup := by
    change fieldNames.Nodup
    decide
  have hr : Json.record? fieldNames (.object (Json.named r.jsonFields)) = some (r.jsonFields.map fun j => some j.2) :=
    Json.record?_named hn
  have ht := Rfc3339.ofText?_toText r.createdAt
  simp only [ofJson?, hr, Option.bind_eq_bind, Option.bind_some]
  simp [jsonFields, Json.text?, Json.bool?, ht]

/-- Whatever its texts hold and whenever it was made, a record is read back from its
own text. A text of another spelling says no more than that one. -/
theorem survives_json :
    (∀ r : KeyRecord, ofJsonText? r.toJsonText = some r) ∧
    ∀ (text : String) (r : KeyRecord), ofJsonText? text = some r → ofJsonText? r.toJsonText = ofJsonText? text := by
  have hback (r : KeyRecord) : ofJsonText? r.toJsonText = some r := by
    rw [ofJsonText?, parse?_toJsonText, Option.bind_some, ofJson?_jsonFields]
  refine ⟨hback, ?_⟩
  intro text r htext
  rw [hback, htext]

end AttestedVault.KeyRecord
