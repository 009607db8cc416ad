import CirisPersist.Base.External
import CirisPersist.Verify.Canonical

/-!
# Audit entries and their signed bytes

An audit entry is signed over the V1 signing form of its JSON, which is pinned: a stored
entry is verified again from its row, so the bytes have to come out as they were signed.
The payload is whatever JSON the actor supplied, and it is nested in the entry, where no
member is left out.
-/

namespace CirisPersist.Audit

open JsonText Canonical

/-- How the wire form of an entry writes bytes and dates; both are other crates'. -/
class EntryText where
  base64 : List UInt8 -> String
  dateTime : Instant -> String

structure AuditEntry where
  entryId : String
  sequenceNumber : Int
  tenantId : String
  actorId : String
  actionType : String
  subjectKind : String
  subjectId : String
  payload : SerdeValue
  prevHash : List UInt8
  entryHash : List UInt8
  recordedAt : Instant
  signature : String

namespace AuditEntry

variable [EntryText]

def members (e : AuditEntry) : List (String × Value) :=
  [("entry_id", .str e.entryId),
    ("sequence_number", .num (NumberToken.ofInt e.sequenceNumber)),
    ("tenant_id", .str e.tenantId),
    ("actor_id", .str e.actorId),
    ("action_type", .str e.actionType),
    ("subject_kind", .str e.subjectKind),
    ("subject_id", .str e.subjectId),
    ("payload", e.payload.value),
    ("prev_hash", .str (EntryText.base64 e.prevHash)),
    ("entry_hash", .str (EntryText.base64 e.entryHash)),
    ("recorded_at", .str (EntryText.dateTime e.recordedAt)),
    ("signature", .str e.signature)]

variable (e : AuditEntry)

theorem nodup_keys :
    (e.members.map Prod.fst).Nodup := by
  show ["entry_id", "sequence_number", "tenant_id", "actor_id", "action_type", "subject_kind",
    "subject_id", "payload", "prev_hash", "entry_hash", "recorded_at", "signature"].Nodup
  decide

theorem distinctKeys_of_mem
    (m : String × Value) (hm : m ∈ e.members) :
    m.2.distinctKeys = true := by
  have hall : e.members.all (fun m => m.2.distinctKeys) = true := by
    simp [members, e.payload.distinct]
  exact List.all_eq_true.mp hall m hm

def toValue (e : AuditEntry) : SerdeValue where
  value := .obj e.members
  distinct := (Value.distinctKeys_obj e.members).mpr ⟨e.nodup_keys, e.distinctKeys_of_mem⟩

def canonicalBytesForEntry (e : AuditEntry) : ByteArray :=
  canonicalizeEnvelopeForSigningV1Pinned e.toValue

theorem payload_mem_stripped :
    ("payload", e.payload.value) ∈ e.members.filter fun m => !signatureMembers.contains m.1 := by
  apply List.mem_filter.mpr
  constructor
  · simp [members]
  · rfl

theorem same_payload_of_canonicalBytes_eq
    {e e' : AuditEntry} (h : e.canonicalBytesForEntry = e'.canonicalBytesForEntry) :
    Value.Same e.payload.value e'.payload.value := by
  cases (canonicalize_eq_iff e.toValue e'.toValue).mp h with
  | obj hkeys hsame => exact hsame _ _ _ e.payload_mem_stripped e'.payload_mem_stripped

end AuditEntry

/-- The V1 signing form binds everything but the signatures. -/
theorem signing_form_binds_payload
    [EntryText] (u v : SerdeValue) :
    (canonicalizeEnvelopeForSigningV1Pinned u = canonicalizeEnvelopeForSigningV1Pinned v <->
      Value.Same (stripped u.value) (stripped v.value)) ∧
    (forall b, b ∈ (canonicalizeEnvelopeForSigningV1Pinned u).toList -> b.toNat < 128) ∧
    (Value.Same u.value v.value ->
      canonicalizeEnvelopeForSigningV1Pinned u = canonicalizeEnvelopeForSigningV1Pinned v) ∧
    (forall members members', u.value = Value.obj members -> v.value = Value.obj members' ->
      members.Perm members' ->
      canonicalizeEnvelopeForSigningV1Pinned u = canonicalizeEnvelopeForSigningV1Pinned v) ∧
    (exists w, parseBytes (canonicalizeEnvelopeForSigningV1Pinned u) = some w ∧
      Value.Same w (stripped u.value)) ∧
    (forall e e' : AuditEntry, e.canonicalBytesForEntry = e'.canonicalBytesForEntry ->
      Value.Same e.payload.value e'.payload.value) := by
  refine ⟨canonicalize_eq_iff u v, canonicalize_ascii u, canonicalize_eq_of_same, ?_,
    ⟨_, parseBytes_canonicalize u, Value.same_sorted _ (distinctKeys_stripped u.distinct)⟩, ?_⟩
  · intro members members' hu hv hperm
    have hdistinct := u.distinct
    apply canonicalize_eq_of_same
    rw [hu] at hdistinct ⊢
    rw [hv]
    exact Value.same_of_perm hdistinct hperm
  · intro e e'
    exact AuditEntry.same_payload_of_canonicalBytes_eq

end CirisPersist.Audit
