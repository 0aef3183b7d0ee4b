import AttestedVault.Certificate.Chain
import AttestedVault.Proofs.BodyParts

/-!
# The body that was received

A signature is checked over what the body of a certificate is written as after
it was read. Those are the bytes that were received just where reading leaves
nothing out and puts nothing in order.
-/

namespace AttestedVault.Certificate

open Der

structure ReceivedExtension where
  oid : Oid
  mark : Option Bool
  value : Bytes
  deriving DecidableEq, Repr

namespace ReceivedExtension

def toDer (e : ReceivedExtension) : Bytes :=
  write 0x30 (e.oid.toDer ++ (e.mark.map fun m => write 0x01 [if m then 0xff else 0x00]).getD []
    ++ write 0x04 e.value)

def allToDer (es : List ReceivedExtension) : Bytes := write 0xa3 (write 0x30 (es.flatMap toDer))

def extension (e : ReceivedExtension) : Extension := ⟨e.oid, e.mark.getD false, e.value⟩

end ReceivedExtension

/-- A body as it stands in the input. -/
structure ReceivedBody where
  version : Option Version
  serial : Bytes
  algorithm : Algorithm
  issuer : List (List Attribute)
  validity : Validity
  subject : List (List Attribute)
  publicKey : PublicKey
  issuerUniqueId : TaggedField BitString
  subjectUniqueId : TaggedField BitString
  extensions : TaggedField (List ReceivedExtension)

namespace ReceivedBody

def toDer (w : ReceivedBody) : Bytes :=
  write 0x30 ((w.version.map fun v => write 0xa0 (write 0x02 [v.number])).getD [] ++ write 0x02 w.serial
    ++ w.algorithm.toDer ++ nameToDer w.issuer ++ w.validity.toDer ++ nameToDer w.subject ++ w.publicKey.toDer
    ++ w.issuerUniqueId.toDer (fun s => write 0x81 s.content)
    ++ w.subjectUniqueId.toDer (fun s => write 0x82 s.content)
    ++ w.extensions.toDer ReceivedExtension.allToDer)

def bodyWith (w : ReceivedBody) (issuer subject : Name) : Body :=
  ⟨w.version.getD .v1, w.serial, w.algorithm, issuer, w.validity, subject, w.publicKey,
    w.issuerUniqueId.value, w.subjectUniqueId.value,
    w.extensions.value.map fun es => es.map ReceivedExtension.extension⟩

def body? (w : ReceivedBody) : Option Body := do
  let issuer ← w.issuer.mapM sortAttributes
  let subject ← w.subject.mapM sortAttributes
  some (w.bodyWith issuer subject)

/-- Defaults are left out, sets are in order and no element is passed over. -/
structure Plain (w : ReceivedBody) : Prop where
  version : w.version ≠ some .v1
  issuer : ∀ rdn ∈ w.issuer, Ascending rdn
  subject : ∀ rdn ∈ w.subject, Ascending rdn
  issuerUniqueId : w.issuerUniqueId.passed = []
  subjectUniqueId : w.subjectUniqueId.passed = []
  extensions : w.extensions.passed = []
  marks : ∀ es ∈ w.extensions.value, ∀ e ∈ es, e.mark ≠ some false

end ReceivedBody

/-! ## Parts -/

theorem Extension.read_spelled :
    Spelled Extension.read ReceivedExtension.toDer fun e w => e = w.extension := by
  refine Spelled.inside ?_ 0x30
  intro b e rest h
  obtain ⟨oid, mid, ho, h⟩ := bind_eq_some.mp h
  obtain ⟨critical, mid', hm, h⟩ := bind_eq_some.mp h
  obtain ⟨value, mid'', hv, h⟩ := bind_eq_some.mp h
  obtain ⟨rfl, rfl⟩ := pure_eq_some.mp h
  obtain ⟨mark, hb, hrel⟩ := optional_spelled readBool_exact hm
  have hmark : critical = mark := by simpa using map_of_rel (f := id) hrel
  refine ⟨⟨oid, mark, value⟩, ?_, by rw [hmark]; rfl⟩
  rw [Oid.read_exact.eq ho, hb, (Der.read_spelled hv).1]
  simp

theorem extension_shortens (w : ReceivedExtension) :
    Shortens w.extension.toDer w.toDer (w.mark ≠ some false) := by
  obtain ⟨oid, mark, value⟩ := w
  have hmark : Shortens (if mark.getD false then write 0x01 [0xff] else [])
      ((mark.map fun m => write 0x01 [if m then 0xff else 0x00]).getD []) (mark ≠ some false) := by
    match mark with
    | none => exact (Shortens.refl _).congr (by simp)
    | some true => exact (Shortens.refl _).congr (by simp)
    | some false => exact (Shortens.nil _).congr (by simp [write, Element.toDer])
  exact ((((Shortens.refl _).append hmark).append (.refl _)).write 0x30).congr (by simp)

theorem version_shortens (v : Option Version) :
    Shortens (Body.versionToDer (v.getD .v1)) ((v.map fun v => write 0xa0 (write 0x02 [v.number])).getD [])
      (v ≠ some .v1) := by
  match v with
  | none => exact (Shortens.refl _).congr (by simp)
  | some .v1 => exact (Shortens.nil _).congr (by simp [write, Element.toDer])
  | some .v2 => exact (Shortens.refl _).congr (by simp)
  | some .v3 => exact (Shortens.refl _).congr (by simp)

/-! ## The body -/

theorem extensions_spelled :
    Spelled (inside 0xa3 (Der.list 0x30 Extension.read)) ReceivedExtension.allToDer
      fun es ws => es = ws.map ReceivedExtension.extension := by
  intro b es rest h
  obtain ⟨ws, hb, hm⟩ := (Extension.read_spelled.list 0x30).inside 0xa3 h
  have he : List.Forall₂ Eq es (ws.map ReceivedExtension.extension) := List.forall₂_map_right_iff.mpr hm
  rw [List.forall₂_eq_eq_eq] at he
  exact ⟨ws, hb, he⟩

theorem extensions_shortens (ws : List ReceivedExtension) :
    Shortens (Body.extensionsToDer (ws.map ReceivedExtension.extension)) (ReceivedExtension.allToDer ws)
      (∀ w ∈ ws, w.mark ≠ some false) := by
  have hall : List.Forall₂ (fun e w => Shortens e.toDer w.toDer (w.mark ≠ some false))
      (ws.map ReceivedExtension.extension) ws := by
    rw [List.forall₂_map_left_iff, List.forall₂_same]
    exact fun w _ => extension_shortens w
  exact ((Shortens.flatMap hall).write 0x30).write 0xa3

theorem body_shortens {w : ReceivedBody} {issuer subject : Name}
    (hi : Shortens (nameToDer issuer) (nameToDer w.issuer) (∀ rdn ∈ w.issuer, Ascending rdn))
    (hs : Shortens (nameToDer subject) (nameToDer w.subject) (∀ rdn ∈ w.subject, Ascending rdn)) :
    Shortens (w.bodyWith issuer subject).toDer w.toDer w.Plain := by
  have hid (tag : UInt8) (f : TaggedField BitString) :
      Shortens ((f.value.map fun s => write tag s.content).getD []) (f.toDer fun s => write tag s.content)
        (f.passed = []) :=
    (Shortens.field (fun _ => .refl _) f).congr (by simp)
  have hes : Shortens (Body.optionalToDer Body.extensionsToDer
      (w.extensions.value.map fun es => es.map ReceivedExtension.extension))
      (w.extensions.toDer ReceivedExtension.allToDer)
      (w.extensions.passed = [] ∧ ∀ es ∈ w.extensions.value, ∀ e ∈ es, e.mark ≠ some false) := by
    rw [Body.optionalToDer, Option.map_map]
    exact Shortens.field extensions_shortens w.extensions
  have hhead := ((version_shortens w.version).append (.refl (write 0x02 w.serial))).append (.refl w.algorithm.toDer)
  have hnames := ((hhead.append hi).append (.refl w.validity.toDer)).append hs
  have hids := ((hnames.append (.refl w.publicKey.toDer)).append (hid 0x81 w.issuerUniqueId)).append
    (hid 0x82 w.subjectUniqueId)
  have hparts := hids.append hes
  refine (hparts.write 0x30).congr ⟨?_, ?_⟩
  · rintro ⟨⟨⟨⟨⟨⟨⟨⟨⟨hv, -⟩, -⟩, hi⟩, -⟩, hs⟩, -⟩, hiid⟩, hsid⟩, hep, hm⟩
    exact ⟨hv, hi, hs, hiid, hsid, hep, hm⟩
  · intro h
    exact ⟨⟨⟨⟨⟨⟨⟨⟨⟨h.version, trivial⟩, trivial⟩, h.issuer⟩, trivial⟩, h.subject⟩, trivial⟩, h.issuerUniqueId⟩,
      h.subjectUniqueId⟩, h.extensions, h.marks⟩

theorem Body.read_spelled (passOver : Bool) :
    Spelled (Body.read passOver) ReceivedBody.toDer fun c w =>
      w.body? = some c ∧ Shortens c.toDer w.toDer w.Plain := by
  refine Spelled.inside ?_ 0x30
  intro b c rest h
  obtain ⟨version, b₁, hversion, h⟩ := bind_eq_some.mp h
  obtain ⟨serial, b₂, hserial, h⟩ := bind_eq_some.mp h
  obtain ⟨algorithm, b₃, halgorithm, h⟩ := bind_eq_some.mp h
  obtain ⟨issuer, b₄, hissuer, h⟩ := bind_eq_some.mp h
  obtain ⟨validity, b₅, hvalidity, h⟩ := bind_eq_some.mp h
  obtain ⟨subject, b₆, hsubject, h⟩ := bind_eq_some.mp h
  obtain ⟨publicKey, b₇, hkey, h⟩ := bind_eq_some.mp h
  obtain ⟨issuerId, b₈, hissuerId, h⟩ := bind_eq_some.mp h
  obtain ⟨subjectId, b₉, hsubjectId, h⟩ := bind_eq_some.mp h
  obtain ⟨extensions, b₁₀, hextensions, h⟩ := bind_eq_some.mp h
  obtain ⟨rfl, rfl⟩ := pure_eq_some.mp h
  clear h
  have hserial := readSerial_exact.eq hserial
  have halgorithm := Algorithm.read_exact.eq halgorithm
  have hvalidity := Validity.read_exact.eq hvalidity
  have hkey := PublicKey.read_exact.eq hkey
  obtain ⟨v, hv, vrel, vpassed⟩ := context_spelled (Version.read_exact.inside 0xa0) hversion
  obtain ⟨i, hi, isorted, ishort⟩ := readName_spelled hissuer
  obtain ⟨s, hs, ssorted, sshort⟩ := readName_spelled hsubject
  obtain ⟨iid, hiid, iidrel, -⟩ := context_spelled (BitString.readAs_exact 0x81) hissuerId
  obtain ⟨sid, hsid, sidrel, -⟩ := context_spelled (BitString.readAs_exact 0x82) hsubjectId
  obtain ⟨es, hes, esrel, -⟩ := context_spelled extensions_spelled hextensions
  -- no tag number is below that of the version
  have hnone : v.passed = [] := List.eq_nil_iff_forall_not_mem.mpr fun e he => UInt8.not_lt_zero (vpassed e he)
  have hvalue : version = v.value := by simpa using map_of_rel (f := id) vrel
  have hiidv : issuerId = iid.value := by simpa using map_of_rel (f := id) iidrel
  have hsidv : subjectId = sid.value := by simpa using map_of_rel (f := id) sidrel
  have hesv : extensions = es.value.map fun ws => ws.map ReceivedExtension.extension := map_of_rel esrel
  subst hvalue hiidv hsidv hesv
  let w : ReceivedBody := ⟨v.value, serial, algorithm, i, validity, s, publicKey, iid, sid, es⟩
  have hw : w.body? = some (w.bodyWith issuer subject) := by
    simp only [w, ReceivedBody.body?, isorted, ssorted, Option.bind_eq_bind, Option.bind_some]
  refine ⟨w, ?_, hw, body_shortens (w := w) ishort sshort⟩
  rw [hv, hserial, halgorithm, hi, hvalidity, hs, hkey, hiid, hsid, hes, TaggedField.toDer, hnone]
  simp only [w, List.flatMap_nil, List.nil_append, List.append_assoc]

/-- The bytes of a certificate that its issuer signs. -/
def receivedBody? (b : Bytes) : Option Bytes := do
  let content ← whole (Der.read 0x30) b
  let size ← size? content
  some (content.take size)

theorem ofDer?_spelled {b : Bytes} {c : Certificate} (h : ofDer? b = some c) :
    ∃ w : ReceivedBody, receivedBody? b = some w.toDer ∧ w.body? = some c.body ∧
      Shortens c.body.toDer w.toDer w.Plain := by
  obtain ⟨content, hr, h⟩ := inside_eq_some.mp (whole_eq_some.mp h)
  obtain ⟨body, mid, hb, h⟩ := bind_eq_some.mp h
  obtain ⟨algorithm, mid', -, h⟩ := bind_eq_some.mp h
  obtain ⟨signature, mid'', -, h⟩ := bind_eq_some.mp h
  obtain ⟨rfl, -⟩ := pure_eq_some.mp h
  obtain ⟨w, hw, hbody, hform⟩ := Body.read_spelled true hb
  have hsize : content.length - mid.length = w.toDer.length := by
    rw [hw, List.length_append, Nat.add_sub_cancel]
  refine ⟨w, ?_, hbody, hform⟩
  rw [receivedBody?, whole_eq_some.mpr hr, Option.bind_eq_bind, Option.bind_some, size?_inside hb,
    Option.bind_eq_bind, Option.bind_some, hsize, hw, List.take_left]

/-! ## A root of which the extension is marked -/

namespace ReceivedBody

/-- The body of a root whose key is the point that generates the curve. -/
def root (mark : Option Bool) : ReceivedBody where
  version := some .v3
  serial := [5]
  algorithm := ⟨ecdsaWithSha384, none⟩
  issuer := [[⟨⟨[0x55, 0x04, 0x03]⟩, ⟨0x0c, Bytes.ofText "ARK"⟩⟩]]
  validity := ⟨.short (Bytes.ofText "230101000000Z"), .short (Bytes.ofText "480101000000Z")⟩
  subject := [[⟨⟨[0x55, 0x04, 0x03]⟩, ⟨0x0c, Bytes.ofText "ARK"⟩⟩]]
  publicKey := ⟨⟨⟨[0x2a, 0x86, 0x48, 0xce, 0x3d, 0x02, 0x01]⟩, some ⟨0x06, [0x2b, 0x81, 0x04, 0x00, 0x22]⟩⟩,
    ⟨0, 4 :: Bytes.ofNat 48 P384.generator.x ++ Bytes.ofNat 48 P384.generator.y⟩⟩
  issuerUniqueId := ⟨[], none⟩
  subjectUniqueId := ⟨[], none⟩
  extensions := ⟨[], some [⟨⟨[0x55, 0x1d, 0x13]⟩, mark, write 0x30 (write 0x01 [0xff])⟩]⟩

/-- The key one and the nonce one have given this signature of some body. -/
def signature (s : Nat) : BitString :=
  ⟨0, write 0x30 (write 0x02 (0 :: Bytes.ofNat 48 P384.generator.x) ++ write 0x02 (Bytes.ofNat 48 s))⟩

def signed (w : ReceivedBody) (s : BitString) : Bytes := write 0x30 (w.toDer ++ w.algorithm.toDer ++ s.toDer)

def unmarked : Bytes := (root none).signed
  (signature 0x6fb03c752665bf726460a5980dae32a36c8e8f58edc87b6d3cc986cdde69509538e3c3a9a7b483d123fa6c6314f5d211)

def marked : Bytes := (root (some false)).signed
  (signature 0x4856fd3371d4568cc69e79f28c41b95fabcb5244fe5a2c44a17d6e9e72eab366aa7b33e9edbe35cfacd1b618133c2ecb)

end ReceivedBody

open ReceivedBody

theorem unmarked_read : (ofDer? unmarked).map (fun c => (some c.body.toDer, c.issuedBy c)) =
    some (receivedBody? unmarked, .ok ()) := by
  decide +kernel

theorem marked_refused : (ofDer? marked).map (fun c =>
      (decide (some c.body.toDer = receivedBody? marked), c.issuedBy c,
        (receivedBody? marked).map fun m =>
          checkSignature c.algorithm.oid c.body.publicKey.key.octets m c.signature.octets)) =
    some (false, .error .ecdsaMismatch, some (.ok ())) := by
  decide +kernel

/-- What the issuer's signature is checked over is what was received just where the
received body is plain. There the verdict is that on the received bytes, and an
input with other ones shares it only if that one is not plain. -/
theorem checked_as_received {b : Bytes} {c : Certificate} (h : ofDer? b = some c) :
    ∃ w : ReceivedBody, receivedBody? b = some w.toDer ∧ w.body? = some c.body ∧
      c.body.toDer.length ≤ w.toDer.length ∧ (c.body.toDer = w.toDer ↔ w.Plain) ∧
      (w.Plain → ∀ (issuer : Certificate) (key signature : Bytes), c.body.issuer = issuer.body.subject →
        c.signature.aligned? = some signature → issuer.body.publicKey.key.aligned? = some key →
        c.issuedBy issuer = checkSignature c.algorithm.oid key w.toDer signature) ∧
      (w.Plain → ∀ b' c', ofDer? b' = some c' → c'.body.toDer = c.body.toDer →
        ∃ w' : ReceivedBody, receivedBody? b' = some w'.toDer ∧ (w'.Plain ↔ w'.toDer = w.toDer)) := by
  obtain ⟨w, hreceived, hbody, hform⟩ := ofDer?_spelled h
  refine ⟨w, hreceived, hbody, hform.length_le, hform.eq_iff, ?_, ?_⟩
  · intro hplain issuer key signature hname hsignature hkey
    have hmessage : c.body.toDer = w.toDer := hform.eq_iff.mpr hplain
    simp only [issuedBy, hname, ne_eq, not_true_eq_false, if_false, hsignature, hkey, hmessage]
  · intro hplain b' c' h' hsame
    obtain ⟨w', hreceived', -, hform'⟩ := ofDer?_spelled h'
    refine ⟨w', hreceived', ?_⟩
    rw [← hform'.eq_iff, hsame, hform.eq_iff.mpr hplain, eq_comm]

theorem checked_as_received_root :
    (∃ c, ∃ w : ReceivedBody, ofDer? unmarked = some c ∧ receivedBody? unmarked = some w.toDer ∧ w.Plain ∧
      c.issuedBy c = .ok ()) ∧
    ∃ c, ∃ w : ReceivedBody, ofDer? marked = some c ∧ receivedBody? marked = some w.toDer ∧ ¬ w.Plain ∧
      checkSignature c.algorithm.oid c.body.publicKey.key.octets w.toDer c.signature.octets = .ok () ∧
      c.issuedBy c = .error .ecdsaMismatch := by
  obtain ⟨c, hc, hunmarked⟩ := Option.map_eq_some_iff.mp unmarked_read
  obtain ⟨d, hd, hmarked⟩ := Option.map_eq_some_iff.mp marked_refused
  obtain ⟨w, hw, -, -, hplain, -, -⟩ := checked_as_received hc
  obtain ⟨v, hv, -, -, hmark, -, -⟩ := checked_as_received hd
  rw [hw] at hunmarked
  rw [hv] at hmarked
  simp only [Prod.mk.injEq, Option.some.injEq, Option.map_some, decide_eq_false_iff_not] at hunmarked hmarked
  obtain ⟨hsame, hok⟩ := hunmarked
  obtain ⟨hother, herror, hcheck⟩ := hmarked
  exact ⟨⟨c, w, hc, hw, hplain.mp hsame, hok⟩, d, v, hd, hv, fun h => hother (hmark.mpr h), hcheck, herror⟩

end AttestedVault.Certificate
