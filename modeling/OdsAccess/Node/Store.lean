import OdsAccess.Lib.PostcardLength
import OdsAccess.Node.DeltaBytes
import OdsAccess.Node.Sample

namespace OdsAccess
open FixedBytes Postcard
set_option autoImplicit true

namespace PersonaStatus

def number : PersonaStatus → Nat
  | proposed => 0
  | active => 1
  | revoked => 2

def ofNumber : Nat → Option PersonaStatus
  | 0 => some proposed
  | 1 => some active
  | 2 => some revoked
  | _ => none

def format : Format PersonaStatus := via variant number ofNumber

theorem reads (s : PersonaStatus) : format.Reads s := by
  apply via_reads
  · cases s with
    | proposed => exact variant_reads (by decide)
    | active => exact variant_reads (by decide)
    | revoked => exact variant_reads (by decide)
  · cases s <;> rfl

theorem minimal : format.Minimal := by
  intro bs s rest hd
  obtain ⟨n, hn, -⟩ := via_decode hd
  have hlen : rest.length < bs.length := decodeVariant_length hn
  have hone : (format.encode s).length = 1 := by
    simp only [format, via, variant]
    cases s <;> rw [encodeVarint_lt (by decide)] <;> rfl
  omega

end PersonaStatus

theorem OrgId.reads (o : OrgId) : OrgId.format.Reads o := via_reads (byteArray_reads _) rfl

theorem OrgId.minimal : OrgId.format.Minimal := by
  apply via_minimal byteArray_minimal
  rintro b _ ⟨⟩
  rfl

theorem MemberSnapshot.minimal : MemberSnapshot.format.Minimal := by
  apply via_minimal
  · exact pair_minimal byteArray_minimal (pair_minimal string_minimal (pair_minimal string_minimal
      (pair_minimal string_minimal (pair_minimal byteArray_minimal
        (seq_minimal byteArray_minimal)))))
  · rintro b _ ⟨⟩
    rfl

namespace PersonaRecord

def format : Format PersonaRecord :=
  via (pair string (pair (option OrgId.format) (pair string (pair string (pair string
    (pair (byteArray 32) (pair (byteArray 32) (pair (option (byteArray 32))
      PersonaStatus.format))))))))
    (fun p => (p.personaId, p.orgId, p.handle, p.name, p.surname, p.memberSeed, p.deviceSeed,
      p.memberId, p.status))
    fun (personaId, orgId, handle, name, surname, memberSeed, deviceSeed, memberId, status) =>
      some ⟨personaId, orgId, handle, name, surname, memberSeed, deviceSeed, memberId, status⟩

/-- Its strings have lengths that 64 bits can tell. -/
structure Sized (p : PersonaRecord) : Prop where
  personaId : p.personaId.utf8ByteSize < maxLen
  handle : p.handle.utf8ByteSize < maxLen
  name : p.name.utf8ByteSize < maxLen
  surname : p.surname.utf8ByteSize < maxLen

theorem reads {p : PersonaRecord} (h : p.Sized) : format.Reads p := by
  apply via_reads
  · exact pair_reads (string_reads h.personaId) (pair_reads (option_reads fun o _ => o.reads)
      (pair_reads (string_reads h.handle) (pair_reads (string_reads h.name)
        (pair_reads (string_reads h.surname) (pair_reads (byteArray_reads _)
          (pair_reads (byteArray_reads _) (pair_reads (option_reads fun b _ => byteArray_reads b)
            p.status.reads)))))))
  · rfl

theorem minimal : format.Minimal := by
  apply via_minimal
  · exact pair_minimal string_minimal (pair_minimal (option_minimal OrgId.minimal)
      (pair_minimal string_minimal (pair_minimal string_minimal (pair_minimal string_minimal
        (pair_minimal byteArray_minimal (pair_minimal byteArray_minimal
          (pair_minimal (option_minimal byteArray_minimal) PersonaStatus.minimal)))))))
  · rintro b _ ⟨⟩
    rfl

end PersonaRecord

namespace PendingInvite

def format : Format PendingInvite :=
  via (pair OrgId.format (pair (byteArray 32) (pair (byteArray 32) (byteArray 32))))
    (fun p => (p.orgId, p.adminDeviceKey, p.adminMemberKey, p.orgPubKey))
    fun (orgId, adminDeviceKey, adminMemberKey, orgPubKey) =>
      some ⟨orgId, adminDeviceKey, adminMemberKey, orgPubKey⟩

theorem reads (p : PendingInvite) : format.Reads p := by
  apply via_reads
  · exact pair_reads p.orgId.reads (pair_reads (byteArray_reads _) (pair_reads (byteArray_reads _)
      (byteArray_reads _)))
  · rfl

theorem minimal : format.Minimal := by
  apply via_minimal
  · exact pair_minimal OrgId.minimal (pair_minimal byteArray_minimal
      (pair_minimal byteArray_minimal byteArray_minimal))
  · rintro b _ ⟨⟩
    rfl

end PendingInvite

section Layouts
variable {D : Type} [RootFormat D]

namespace OrgRecord

/-- The fields of a record up to its members. -/
def front (o : OrgRecord D) : OrgId × D × Bytes 32 × Nat × Option (Bytes 32) × Nat × Bytes 32 ×
    List MemberSnapshot :=
  (o.orgId, o.rootHash, o.orgPubKey, o.epoch, o.orgSecret, o.lastSeq, o.adminMemberKey,
    o.trieMembers)

def frontFormat : Format (OrgId × D × Bytes 32 × Nat × Option (Bytes 32) × Nat × Bytes 32 ×
    List MemberSnapshot) :=
  pair OrgId.format (pair RootFormat.format (pair (byteArray 32) (pair varint
    (pair (option (byteArray 32)) (pair varint (pair (byteArray 32)
      (seq MemberSnapshot.format)))))))

def format : Format (OrgRecord D) :=
  via (pair frontFormat (option (byteArray 32))) (fun o => (o.front, o.proxyAccount))
    fun ((orgId, rootHash, orgPubKey, epoch, orgSecret, lastSeq, adminMemberKey, trieMembers),
        proxyAccount) =>
      some ⟨orgId, rootHash, orgPubKey, epoch, orgSecret, lastSeq, adminMemberKey, trieMembers,
        proxyAccount⟩

/-- The layout from before records had a proxy account. -/
def formerFormat : Format (OrgRecord D) :=
  via frontFormat front
    fun (orgId, rootHash, orgPubKey, epoch, orgSecret, lastSeq, adminMemberKey, trieMembers) =>
      some ⟨orgId, rootHash, orgPubKey, epoch, orgSecret, lastSeq, adminMemberKey, trieMembers,
        none⟩

/-- Its numbers have 64 bits, and so have the lengths of what it keeps. -/
structure Sized (o : OrgRecord D) : Prop where
  epoch : o.epoch < maxLen
  lastSeq : o.lastSeq < maxLen
  trieMembers : o.trieMembers.length < maxLen
  members : ∀ s ∈ o.trieMembers, s.Sized

theorem reads {o : OrgRecord D} (h : o.Sized) : format.Reads o := by
  apply via_reads
  · refine pair_reads ?_ (option_reads fun b _ => byteArray_reads b)
    exact pair_reads o.orgId.reads (pair_reads (RootFormat.reads _) (pair_reads (byteArray_reads _)
      (pair_reads (varint_reads h.epoch) (pair_reads (option_reads fun b _ => byteArray_reads b)
        (pair_reads (varint_reads h.lastSeq) (pair_reads (byteArray_reads _)
          (seq_reads h.trieMembers fun s hs => MemberSnapshot.reads (h.members s hs))))))))
  · rfl

theorem minimal : (format : Format (OrgRecord D)).Minimal := by
  apply via_minimal
  · refine pair_minimal ?_ (option_minimal byteArray_minimal)
    exact pair_minimal OrgId.minimal (pair_minimal RootFormat.exact.minimal
      (pair_minimal byteArray_minimal (pair_minimal varint_minimal
        (pair_minimal (option_minimal byteArray_minimal) (pair_minimal varint_minimal
          (pair_minimal byteArray_minimal (seq_minimal MemberSnapshot.minimal)))))))
  · rintro b _ ⟨⟩
    rfl

/-- The record without its proxy account. -/
def unproxied (o : OrgRecord D) : OrgRecord D := { o with proxyAccount := none }

theorem encode_unproxied (o : OrgRecord D) :
    format.encode o.unproxied = formerFormat.encode o ++ [0] := rfl

end OrgRecord

namespace StoreData

/-- A layout of the store, told by that of its records. -/
def layout (orgFormat : Format (OrgRecord D)) : Format (StoreData D) :=
  via (pair (seq PersonaRecord.format) (pair (seq orgFormat) (seq PendingInvite.format)))
    (fun data => (data.personas, data.orgs, data.pendingInvites))
    fun (personas, orgs, pendingInvites) => some ⟨personas, orgs, pendingInvites⟩

def format : Format (StoreData D) := layout OrgRecord.format

def formerFormat : Format (StoreData D) := layout OrgRecord.formerFormat

/-- All that it keeps has lengths and numbers of 64 bits. -/
structure Sized (data : StoreData D) : Prop where
  personas : data.personas.length < maxLen
  persona : ∀ p ∈ data.personas, p.Sized
  orgs : data.orgs.length < maxLen
  org : ∀ o ∈ data.orgs, o.Sized
  pendingInvites : data.pendingInvites.length < maxLen

theorem reads {data : StoreData D} (h : data.Sized) : format.Reads data := by
  apply via_reads
  · exact pair_reads (seq_reads h.personas fun p hp => PersonaRecord.reads (h.persona p hp))
      (pair_reads (seq_reads h.orgs fun o ho => OrgRecord.reads (h.org o ho))
        (seq_reads h.pendingInvites fun p _ => p.reads))
  · rfl

theorem minimal : (format : Format (StoreData D)).Minimal := by
  apply via_minimal
  · exact pair_minimal (seq_minimal PersonaRecord.minimal)
      (pair_minimal (seq_minimal OrgRecord.minimal) (seq_minimal PendingInvite.minimal))
  · rintro b _ ⟨⟩
    rfl

/-- The same data with no proxy account in any record. -/
def unproxied (data : StoreData D) : StoreData D :=
  { data with orgs := data.orgs.map OrgRecord.unproxied }

theorem length_encode_unproxied (data : StoreData D) :
    (format.encode data.unproxied).length =
      (formerFormat.encode data).length + data.orgs.length := by
  have hrecords (orgs : List (OrgRecord D)) :
      ((orgs.map OrgRecord.unproxied).flatMap OrgRecord.format.encode).length =
        (orgs.flatMap OrgRecord.formerFormat.encode).length + orgs.length := by
    induction orgs with
    | nil => rfl
    | cons o orgs ih =>
      rw [List.map_cons, List.flatMap_cons, List.flatMap_cons, List.length_append,
        List.length_append, ih, OrgRecord.encode_unproxied, List.length_append,
        List.length_singleton, List.length_cons]
      omega
  simp only [format, formerFormat, layout, via, pair, seq, unproxied, List.length_append,
    List.length_map, hrecords]
  omega

theorem fromBytes_former_iff {data : StoreData D} (h : data.Sized) :
    format.fromBytes (formerFormat.encode data) = some data.unproxied ↔ data.orgs = [] := by
  constructor
  · intro hread
    have hlen := minimal.fromBytes hread
    rw [length_encode_unproxied] at hlen
    exact List.length_eq_zero_iff.1 (by omega)
  · intro hnil
    have hsame : data.unproxied = data := by rw [unproxied, hnil, List.map_nil, ← hnil]
    have hbytes : formerFormat.encode data = format.encode data := by
      simp only [formerFormat, format, layout, via, pair, seq, hnil, List.flatMap_nil]
    rw [hsame, hbytes]
    exact (reads h).fromBytes

end StoreData

end Layouts

section Opening
variable [Packages] {D : Type} [RootFormat D]

/-- The salt of the key derivation. -/
def appSalt : List UInt8 := "ods-phase2-personastore-v1______".toByteArray.data.toList

/-- The key derivation and the cipher, of other packages. -/
structure StoreCipher where
  deriveKey : String → List UInt8 → Except String (Bytes 32)
  encrypt : Bytes 32 → Bytes 24 → List UInt8 → Except String (List UInt8)
  decrypt : Bytes 32 → Bytes 24 → List UInt8 → Option (List UInt8)

namespace StoreCipher

/-- What was encrypted is decrypted to what it was. -/
def Lawful (cipher : StoreCipher) : Prop :=
  ∀ key nonce pt ct, cipher.encrypt key nonce pt = .ok ct → cipher.decrypt key nonce ct = some pt

/-- The blob holds these bytes under the passphrase. -/
def Holds (cipher : StoreCipher) (passphrase : String) (blob pt : List UInt8) : Prop :=
  ∃ key nonce ct, cipher.deriveKey passphrase appSalt = .ok key ∧ blob = nonce.bytes ++ ct ∧
    cipher.decrypt key nonce ct = some pt

end StoreCipher

namespace PersonaStore

/-- Opens what is at a path: nothing, a file that cannot be read, or a file of some bytes. -/
def openAt (cipher : StoreCipher) (path : Option (Except String (List UInt8)))
    (passphrase : String) : Except OrgNodeError (StoreData D) := do
  let key ← (cipher.deriveKey passphrase appSalt).mapError fun e => .chain s!"kdf failed: {e}"
  match path with
  | none => return .default
  | some file =>
    let blob ← file.mapError .chain
    match (byteArray 24).decode blob with
    | none => throw (.chain "store file too short")
    | some (nonce, ct) => match cipher.decrypt key nonce ct with
      | none => throw (.chain "decrypt failed (wrong passphrase?)")
      | some pt => match StoreData.format.fromBytes pt with
        | none => throw (.chain s!"store decode: {Packages.postcardError pt}")
        | some data => return data

/-- The blob that is written for a store. -/
def saved (cipher : StoreCipher) (key : Bytes 32) (nonce : Bytes 24) (data : StoreData D) :
    Except OrgNodeError (List UInt8) := do
  let ct ← (cipher.encrypt key nonce (StoreData.format.encode data)).mapError fun e =>
    .chain s!"encrypt failed: {e}"
  return nonce.bytes ++ ct

end PersonaStore

theorem openAt_of_holds {cipher : StoreCipher} (h : cipher.Holds passphrase blob pt) :
    (PersonaStore.openAt cipher (some (.ok blob)) passphrase : Except OrgNodeError (StoreData D)) =
      match StoreData.format.fromBytes pt with
      | none => .error (.chain s!"store decode: {Packages.postcardError pt}")
      | some data => .ok data := by
  obtain ⟨key, nonce, ct, hkey, rfl, hdecrypt⟩ := h
  have hsplit : (byteArray 24).decode (nonce.bytes ++ ct) = some (nonce, ct) :=
    byteArray_reads nonce ct
  unfold PersonaStore.openAt
  simp only [hkey, Except.mapError, Bind.bind, Except.bind, hsplit, hdecrypt]
  cases (StoreData.format (D := D)).fromBytes pt with
  | none => rfl
  | some data => rfl

theorem openAt_saved {cipher : StoreCipher} (hcipher : cipher.Lawful)
    (hkey : cipher.deriveKey passphrase appSalt = .ok key) {data : StoreData D} (h : data.Sized)
    (hsaved : PersonaStore.saved cipher key nonce data = .ok blob) :
    PersonaStore.openAt cipher (some (.ok blob)) passphrase = .ok data := by
  unfold PersonaStore.saved at hsaved
  cases hct : cipher.encrypt key nonce (StoreData.format.encode data) with
  | error e =>
    rw [hct] at hsaved
    cases hsaved
  | ok ct =>
    rw [hct] at hsaved
    cases hsaved
    have hdecrypt := hcipher _ _ _ _ hct
    rw [openAt_of_holds ⟨key, nonce, ct, hkey, rfl, hdecrypt⟩, (StoreData.reads h).fromBytes]

/-- A store in the layout from before records had a proxy account is opened as the same data
exactly if it has no record. -/
theorem openAt_former_iff {cipher : StoreCipher} {data : StoreData D} (h : data.Sized)
    (hblob : cipher.Holds passphrase blob (StoreData.formerFormat.encode data)) :
    PersonaStore.openAt cipher (some (.ok blob)) passphrase = .ok data.unproxied ↔
      data.orgs = [] := by
  rw [openAt_of_holds hblob, ← StoreData.fromBytes_former_iff h]
  cases (StoreData.format (D := D)).fromBytes (StoreData.formerFormat.encode data) with
  | none => simp
  | some data' => simp

end Opening

namespace Sample

/-- The nonce of the files. -/
def nonce : Bytes 24 := .replicate 24 7

/-- The key of the passphrase "alice". -/
def storeKey : Bytes 32 := ⟨
  [73, 185, 223, 225, 206, 193, 195, 208, 25, 127, 25, 8, 151, 156, 160, 107, 116, 163, 15, 132,
   127, 77, 222, 53, 224, 105, 28, 95, 76, 56, 70, 0], rfl⟩

/-- A cipher as far as two files under one key go. -/
def storeCipher (files : List (List UInt8 × List UInt8)) : StoreCipher where
  deriveKey passphrase salt :=
    if passphrase = "alice" ∧ salt = appSalt then .ok storeKey else .error ""
  encrypt key n pt :=
    match files.find? fun file => key = storeKey ∧ n = nonce ∧ file.1 = pt with
    | some file => .ok file.2
    | none => .error ""
  decrypt key n ct :=
    (files.find? fun file => key = storeKey ∧ n = nonce ∧ file.2 = ct).map Prod.fst

theorem storeCipher_decrypt (file : List UInt8 × List UInt8) :
    (storeCipher [file]).decrypt storeKey nonce file.2 = some file.1 := by simp [storeCipher]

/-- A store with a persona and an invite, before its first organisation. -/
def invitedStore : StoreData (Bytes 32) where
  personas := [{
    personaId := "3b6a27bcceb6a42d62a3a8d02a6f0d73", orgId := none, handle := "alice"
    name := "Alice", surname := "Jones", memberSeed := .replicate 32 0
    deviceSeed := .replicate 32 1, memberId := none, status := .proposed }]
  orgs := []
  pendingInvites := [⟨org 1, .replicate 32 8, .replicate 32 9, .replicate 32 9⟩]

/-- The store and what it is encrypted to. -/
def invitedFile : List UInt8 × List UInt8 := (StoreData.formerFormat.encode invitedStore,
  [198, 30, 72, 41, 65, 170, 230, 182, 249, 130, 65, 118, 145, 117, 30, 210, 240, 42, 37, 239,
   8, 65, 255, 237, 50, 194, 185, 57, 163, 113, 88, 134, 224, 50, 4, 104, 14, 125, 188, 151,
   212, 243, 122, 36, 81, 230, 89, 43, 209, 126, 187, 166, 202, 9, 2, 173, 247, 70, 230, 153,
   16, 176, 63, 139, 37, 190, 222, 55, 242, 218, 219, 14, 122, 172, 205, 199, 236, 157, 143, 88,
   223, 5, 165, 249, 16, 237, 34, 6, 27, 5, 133, 79, 235, 28, 10, 146, 255, 114, 248, 255, 116,
   203, 213, 248, 249, 189, 23, 74, 59, 246, 184, 41, 129, 31, 38, 44, 71, 23, 38, 126, 252, 72,
   38, 136, 14, 86, 30, 60, 116, 251, 167, 127, 20, 101, 221, 210, 91, 82, 64, 225, 168, 149,
   175, 107, 17, 222, 254, 174, 189, 180, 60, 31, 157, 215, 231, 60, 32, 19, 152, 232, 14, 219,
   232, 90, 246, 187, 85, 116, 13, 83, 211, 31, 31, 192, 24, 128, 182, 59, 38, 195, 138, 54,
   211, 9, 254, 161, 5, 30, 38, 126, 200, 33, 130, 205, 233, 30, 205, 168, 236, 150, 110, 158,
   16, 101, 247, 223, 31, 108, 19, 96, 166, 66, 18, 33, 145, 138, 27, 189, 134, 173, 222, 19,
   105, 80, 193, 209, 233, 89, 43, 218, 180, 239, 14, 84, 106, 156, 54, 40, 174, 143, 137, 122,
   86, 137, 107, 145, 221, 181, 19, 95, 131, 21, 68])

/-- A record of an organisation without members. -/
def bareRecord : OrgRecord (Bytes 32) where
  orgId := org 1
  rootHash := .replicate 32 2
  orgPubKey := .replicate 32 9
  epoch := 1
  orgSecret := none
  lastSeq := 0
  adminMemberKey := .replicate 32 9
  trieMembers := []
  proxyAccount := none

def oneRecord : StoreData (Bytes 32) := ⟨[], [bareRecord], []⟩

/-- A former store with one record and what it is encrypted to. -/
def formerFile : List UInt8 × List UInt8 := (StoreData.formerFormat.encode oneRecord,
  [199, 63, 122, 74, 118, 202, 213, 128, 154, 224, 35, 18, 242, 66, 126, 231, 195, 79, 18, 220,
   104, 115, 156, 215, 84, 240, 137, 90, 151, 21, 106, 224, 213, 3, 6, 111, 109, 19, 215, 246,
   179, 244, 57, 74, 58, 135, 62, 44, 153, 19, 215, 193, 187, 11, 11, 164, 254, 79, 239, 144, 25,
   185, 54, 130, 44, 183, 215, 62, 251, 211, 210, 7, 115, 165, 196, 206, 229, 148, 134, 81, 214,
   12, 172, 240, 25, 229, 34, 7, 26, 13, 141, 71, 227, 20, 2, 154, 247, 122, 240, 247, 124, 195,
   221, 240, 241, 181, 31, 66, 51, 254, 176, 33, 137, 23, 46, 36, 79, 30, 47, 119, 244, 73, 39,
   215, 169, 168, 186, 48, 146, 160, 140, 101, 57, 56, 40, 138, 195, 240, 206])

theorem invitedFile_holds : (storeCipher [invitedFile]).Holds "alice"
    (nonce.bytes ++ invitedFile.2) (StoreData.formerFormat.encode invitedStore) :=
  ⟨storeKey, nonce, invitedFile.2, rfl, rfl, storeCipher_decrypt invitedFile⟩

theorem invitedStore_sized : invitedStore.Sized where
  personas := by decide
  persona p hp := by
    cases List.mem_singleton.1 hp
    exact ⟨by decide, by decide, by decide, by decide⟩
  orgs := Nat.pow_pos (by decide)
  org := nofun
  pendingInvites := by decide

theorem openAt_former_iff_invited : PersonaStore.openAt (storeCipher [invitedFile])
    (some (.ok (nonce.bytes ++ invitedFile.2))) "alice" = .ok invitedStore.unproxied :=
  (openAt_former_iff invitedStore_sized invitedFile_holds).2 rfl

theorem oneRecord_sized : oneRecord.Sized where
  personas := Nat.pow_pos (by decide)
  persona := nofun
  orgs := by decide
  org o ho := by
    cases List.mem_singleton.1 ho
    exact ⟨by decide, by decide, Nat.pow_pos (by decide), nofun⟩
  pendingInvites := Nat.pow_pos (by decide)

theorem formerFile_holds : (storeCipher [formerFile]).Holds "alice" (nonce.bytes ++ formerFile.2)
    (StoreData.formerFormat.encode oneRecord) :=
  ⟨storeKey, nonce, formerFile.2, rfl, rfl, storeCipher_decrypt formerFile⟩

/-- The byte that counts the invites is read as the absence of an account, and then none is left to
count the invites. -/
theorem not_openAt_former : ¬ ∀ (cipher : StoreCipher) (passphrase : String) (blob : List UInt8)
    (data : StoreData (Bytes 32)), data.Sized →
      cipher.Holds passphrase blob (StoreData.formerFormat.encode data) →
      PersonaStore.openAt cipher (some (.ok blob)) passphrase = .ok data.unproxied := by
  intro hclaim
  have hopen := hclaim _ _ _ _ oneRecord_sized formerFile_holds
  rw [openAt_of_holds formerFile_holds] at hopen
  have hread : StoreData.format.fromBytes (StoreData.formerFormat.encode oneRecord) ≠
      some oneRecord.unproxied := by
    rw [ne_eq, StoreData.fromBytes_former_iff oneRecord_sized]
    exact List.cons_ne_nil _ _
  split at hopen
  · cases hopen
  · next data hdata =>
    cases hopen
    exact hread hdata

end Sample

end OdsAccess
