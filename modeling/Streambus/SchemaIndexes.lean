/-
The schema registry.  A schema that is registered for a subject gets an
identifier and the subject's next version.  Four maps find schemas again: by
identifier, by subject and version, the latest version of each subject, and
by the fingerprint of a definition.  They agree as long as single versions are
deleted only where they are the last of their subject, and definitions are not
registered again in another format, since fingerprints do not tell formats
apart.
-/
import Streambus.ByteOrder
import Streambus.GuardedRun
import Streambus.OrderedMap

namespace Streambus.Schemas

inductive SchemaFormat
  | json
  | avro
  | protobuf
  | other (name : Bytes)
deriving DecidableEq

inductive CompatibilityMode
  | none
  | backward
  | forward
  | full
  | backwardTransitive
  | forwardTransitive
  | fullTransitive
  | other (name : Bytes)
deriving DecidableEq

structure Schema where
  id : Int
  subject : Bytes
  version : Int
  format : SchemaFormat
  definition : Bytes
deriving DecidableEq

inductive ErrorCode
  | schemaNotFound
  | subjectNotFound
  | versionNotFound
  | invalidSchema
  | incompatibleSchema
  | invalidCompatibilityMode
  | invalidSubject
  | schemaRegistryError
deriving DecidableEq

/-- The checks of schemas.  A compatibility check may fail as such. -/
structure SchemaValidator where
  validate : SchemaFormat → Bytes → Bool
  checkCompatibility : SchemaFormat → Bytes → Bytes → CompatibilityMode → Option Bool

structure SchemaRegistry where
  schemas : OrderedMap Int Schema
  subjectSchemas : OrderedMap Bytes (OrderedMap Int Schema)
  subjectLatest : OrderedMap Bytes Int
  fingerprints : OrderedMap Bytes (OrderedMap Bytes Int)
  globalCompatibility : CompatibilityMode
  subjectCompatibility : OrderedMap Bytes CompatibilityMode
  nextId : Int
deriving DecidableEq

structure RegisterSchemaRequest where
  subject : Bytes
  format : SchemaFormat
  definition : Bytes
deriving DecidableEq

/-- What becomes of a request to register a schema. -/
inductive RegisterDecision
  | refused (error : ErrorCode)
  | known (id : Int)
  | fresh
deriving DecidableEq

/-- A 32-bit integer after it has wrapped around. -/
def wrap32 (number : Int) : Int := Int.bmod number (2 ^ 32)

namespace SchemaRegistry

def new : SchemaRegistry := ⟨∅, ∅, ∅, ∅, .backward, ∅, 1⟩

/-- A version of a subject. -/
def version? (registry : SchemaRegistry) (subject : Bytes) (version : Int) :
    Option Schema :=
  (registry.subjectSchemas.find? subject).bind fun versions =>
    versions.find? version

/-- The schema that a fingerprint stands for. -/
def fingerprint? (registry : SchemaRegistry) (subject print : Bytes) : Option Int :=
  (registry.fingerprints.find? subject).bind fun prints => prints.find? print

def isValidCompatibilityMode : CompatibilityMode → Bool
  | .other _ => false
  | _ => true

/-- The mode of a subject. -/
def compatibility (registry : SchemaRegistry) (subject : Bytes) :
    CompatibilityMode :=
  (registry.subjectCompatibility.find? subject).getD registry.globalCompatibility

variable (validator : Option SchemaValidator) (fingerprint : Bytes → Bytes)

def checkCompatibility (registry : SchemaRegistry) (subject : Bytes)
    (existing : Schema) (format : SchemaFormat) (definition : Bytes) :
    Option Bool :=
  if registry.compatibility subject = .none then some true
  else match validator with
  | none => some true
  | some validator =>
    validator.checkCompatibility format existing.definition definition
      (registry.compatibility subject)

/-- A subject whose latest version is missing would be dereferenced. -/
def compatibleWithLatest (registry : SchemaRegistry)
    (request : RegisterSchemaRequest) : Option Bool :=
  match registry.subjectLatest.find? request.subject with
  | none => some true
  | some latest =>
    (registry.version? request.subject latest).bind fun schema =>
      registry.checkCompatibility validator request.subject schema
        request.format request.definition

def decision (registry : SchemaRegistry) (request : RegisterSchemaRequest) :
    RegisterDecision :=
  if request.subject = [] then .refused .invalidSubject
  else if validator.any fun validator =>
      !validator.validate request.format request.definition then
    .refused .invalidSchema
  else match registry.fingerprint? request.subject
      (fingerprint request.definition) with
  | some id => .known id
  | none =>
    match registry.compatibleWithLatest validator request with
    | none => .refused .schemaRegistryError
    | some false => .refused .incompatibleSchema
    | some true => .fresh

def nextVersion (registry : SchemaRegistry) (subject : Bytes) : Int :=
  match registry.subjectLatest.find? subject with
  | none => 1
  | some latest => wrap32 (latest + 1)

/-- The schema that a request adds. -/
def freshSchema (registry : SchemaRegistry)
    (request : RegisterSchemaRequest) : Schema where
  id := wrap32 (registry.nextId + 1)
  subject := request.subject
  version := registry.nextVersion request.subject
  format := request.format
  definition := request.definition

def store (registry : SchemaRegistry) (schema : Schema) : SchemaRegistry :=
  { registry with
    nextId := schema.id
    schemas := registry.schemas.insert schema.id schema
    subjectSchemas := registry.subjectSchemas.insert schema.subject
      (((registry.subjectSchemas.find? schema.subject).getD ∅).insert
        schema.version schema)
    subjectLatest := registry.subjectLatest.insert schema.subject schema.version
    fingerprints := registry.fingerprints.insert schema.subject
      (((registry.fingerprints.find? schema.subject).getD ∅).insert
        (fingerprint schema.definition) schema.id) }

def registerSchema (registry : SchemaRegistry) (request : RegisterSchemaRequest) :
    SchemaRegistry × Except ErrorCode Int :=
  match registry.decision validator fingerprint request with
  | .refused error => (registry, .error error)
  | .known id => (registry, .ok id)
  | .fresh =>
    (registry.store fingerprint (registry.freshSchema request),
      .ok (registry.freshSchema request).id)

def getSchema (registry : SchemaRegistry) (id : Int) : Except ErrorCode Schema :=
  match registry.schemas.find? id with
  | none => .error .schemaNotFound
  | some schema => .ok schema

/-- The loop for the new latest version. -/
def maxVersion (versions : OrderedMap Int Schema) : Int :=
  versions.entries.foldl (fun highest entry =>
    if entry.1 > highest then entry.1 else highest) 0

/-- The entries of a subject once it has lost a version. -/
def dropVersion (registry : SchemaRegistry) (subject : Bytes) (version : Int)
    (versions : OrderedMap Int Schema) (schema : Schema) : SchemaRegistry :=
  let left := versions.erase version
  { registry with
    schemas := registry.schemas.erase schema.id
    subjectLatest :=
      if registry.subjectLatest.find? subject = some version then
        if maxVersion left > 0 then
          registry.subjectLatest.insert subject (maxVersion left)
        else registry.subjectLatest.erase subject
      else registry.subjectLatest
    subjectSchemas :=
      if left = ∅ then registry.subjectSchemas.erase subject
      else registry.subjectSchemas.insert subject left
    fingerprints :=
      if left = ∅ then registry.fingerprints.erase subject
      else registry.fingerprints }

def deleteSchema (registry : SchemaRegistry) (subject : Bytes)
    (version : Int) : SchemaRegistry × Option ErrorCode :=
  match registry.subjectSchemas.find? subject with
  | none => (registry, some .subjectNotFound)
  | some versions =>
    match versions.find? version with
    | none => (registry, some .versionNotFound)
    | some schema =>
      (registry.dropVersion subject version versions schema, none)

def deleteSubject (registry : SchemaRegistry) (subject : Bytes) :
    SchemaRegistry × Option ErrorCode :=
  match registry.subjectSchemas.find? subject with
  | none => (registry, some .subjectNotFound)
  | some versions =>
    ({ registry with
        schemas := versions.entries.foldl
          (fun schemas entry => schemas.erase entry.2.id) registry.schemas
        subjectSchemas := registry.subjectSchemas.erase subject
        subjectLatest := registry.subjectLatest.erase subject
        fingerprints := registry.fingerprints.erase subject
        subjectCompatibility :=
          registry.subjectCompatibility.erase subject }, none)

def updateCompatibility (registry : SchemaRegistry) (subject : Bytes)
    (mode : CompatibilityMode) : SchemaRegistry × Option ErrorCode :=
  if isValidCompatibilityMode mode then
    ({ registry with
        subjectCompatibility :=
          registry.subjectCompatibility.insert subject mode }, none)
  else (registry, some .invalidCompatibilityMode)

end SchemaRegistry

open List Option OrderedMap

inductive RegistryOp
  | registerSchema (request : RegisterSchemaRequest)
  | deleteSchema (subject : Bytes) (version : Int)
  | deleteSubject (subject : Bytes)
  | updateCompatibility (subject : Bytes) (mode : CompatibilityMode)

namespace SchemaRegistry

variable (validator : Option SchemaValidator) (fingerprint : Bytes → Bytes)

def step (registry : SchemaRegistry) : RegistryOp → SchemaRegistry
  | .registerSchema request =>
    (registry.registerSchema validator fingerprint request).1
  | .deleteSchema subject version => (registry.deleteSchema subject version).1
  | .deleteSubject subject => (registry.deleteSubject subject).1
  | .updateCompatibility subject mode =>
    (registry.updateCompatibility subject mode).1

/-- The live versions of a subject. -/
def LiveVersions (registry : SchemaRegistry) (subject : Bytes) : Set Int :=
  {version | (registry.version? subject version).isSome = true}

/-- The maps hold the same schemas, the latest version is the greatest one,
and fingerprints lead to live schemas. -/
structure Agrees (registry : SchemaRegistry) : Prop where
  byId : ∀ id schema, registry.schemas.find? id = some schema → schema.id = id ∧
      registry.version? schema.subject schema.version = some schema
  byVersion : ∀ subject version schema,
    registry.version? subject version = some schema →
      schema.subject = subject ∧ schema.version = version ∧
        registry.schemas.find? schema.id = some schema
  present : ∀ subject, (registry.subjectLatest.find? subject).isSome = true ↔
    (registry.LiveVersions subject).Nonempty
  latest : ∀ subject version, registry.subjectLatest.find? subject = some version →
      IsGreatest (registry.LiveVersions subject) version
  prints : ∀ subject print id, registry.fingerprint? subject print = some id →
      ∃ schema, registry.schemas.find? id = some schema ∧
        schema.subject = subject ∧ fingerprint schema.definition = print

/-- Registering a schema answers with an identifier that leads to it. -/
def Resolves (registry : SchemaRegistry) (request : RegisterSchemaRequest) : Prop :=
  ∀ id, (registry.registerSchema validator fingerprint request).2 = .ok id → ∃ schema,
      (registry.registerSchema validator fingerprint request).1.getSchema id =
        .ok schema ∧
      schema.subject = request.subject ∧ schema.format = request.format ∧
      schema.definition = request.definition

/-- A definition that is known is known in the format of the request, and a
new schema gets an identifier that is not in use and a version that does not
wrap around. -/
def SoundDecision (registry : SchemaRegistry)
    (request : RegisterSchemaRequest) : RegisterDecision → Prop
  | .refused _ => True
  | .known id =>
    (registry.schemas.find? id).all (fun schema =>
      decide (schema.format = request.format)) = true
  | .fresh =>
    registry.schemas.find? (registry.freshSchema request).id = none ∧
      (registry.subjectLatest.find? request.subject).all (fun latest =>
        decide (latest < 2 ^ 31 - 1)) = true

instance (registry : SchemaRegistry) (request : RegisterSchemaRequest)
    (decision : RegisterDecision) :
    Decidable (registry.SoundDecision request decision) := by
  cases decision <;> unfold SoundDecision <;> infer_instance

/-- Schemas are registered soundly, and a deleted version is the last of its
subject. -/
def Sound (registry : SchemaRegistry) : RegistryOp → Prop
  | .registerSchema request =>
    registry.SoundDecision request (registry.decision validator fingerprint request)
  | .deleteSchema subject version =>
    (registry.version? subject version).isSome = true →
      (registry.subjectSchemas.find? subject).all (fun versions =>
        decide (versions.entries.length = 1)) = true
  | _ => True

instance (registry : SchemaRegistry) (op : RegistryOp) :
    Decidable (registry.Sound validator fingerprint op) := by
  cases op <;> unfold Sound <;> infer_instance

/-- The maps agree, and versions count from one. -/
structure Kept (registry : SchemaRegistry) : Prop where
  agrees : registry.Agrees fingerprint
  positive : ∀ subject version,
    (registry.version? subject version).isSome = true → 0 < version

theorem agrees_new : Agrees fingerprint new where
  byId _ _ hschema := nomatch hschema
  byVersion _ _ _ hschema := nomatch hschema
  present _ := ⟨fun hsome => (nomatch hsome), fun ⟨_, hlive⟩ => nomatch hlive⟩
  latest _ _ hlatest := nomatch hlatest
  prints _ _ _ hprint := nomatch hprint

theorem kept_new : Kept fingerprint new :=
  ⟨agrees_new fingerprint, fun _ _ hlive => nomatch hlive⟩

variable {registry : SchemaRegistry} {fingerprint}

theorem version?_store (schema : Schema) (subject : Bytes) (version : Int) :
    (registry.store fingerprint schema).version? subject version =
      if schema.subject = subject ∧ schema.version = version then some schema
      else registry.version? subject version := by
  unfold version? store
  rw [find?_insert]
  by_cases hsubject : schema.subject = subject
  · subst hsubject
    rw [if_pos rfl, bind_some, find?_insert]
    simp only [true_and]
    cases registry.subjectSchemas.find? schema.subject <;> rfl
  · rw [if_neg hsubject, if_neg fun hboth => hsubject hboth.1]

theorem fingerprint?_store (schema : Schema) (subject print : Bytes) :
    (registry.store fingerprint schema).fingerprint? subject print =
      if schema.subject = subject ∧ fingerprint schema.definition = print
      then some schema.id else registry.fingerprint? subject print := by
  unfold fingerprint? store
  rw [find?_insert]
  by_cases hsubject : schema.subject = subject
  · subst hsubject
    rw [if_pos rfl, bind_some, find?_insert]
    simp only [true_and]
    by_cases hprint : fingerprint schema.definition = print
    · simp [hprint]
    · rw [if_neg hprint, if_neg hprint]
      cases registry.fingerprints.find? schema.subject <;> rfl
  · rw [if_neg hsubject, if_neg fun hboth => hsubject hboth.1]

theorem wrap32_of_lt {number : Int} (hlower : 0 < number)
    (hupper : number < 2 ^ 31) : wrap32 number = number := by
  rw [wrap32, Int.bmod_def]
  omega

variable {subject : Bytes} {after : SchemaRegistry}
  {versions : OrderedMap Int Schema}

/-- The next version is beyond all live ones. -/
theorem Kept.nextVersion_gt (hkept : registry.Kept fingerprint) (hroom : ∀ latest,
      registry.subjectLatest.find? subject = some latest → latest < 2 ^ 31 - 1) :
    0 < registry.nextVersion subject ∧
      ∀ version, (registry.version? subject version).isSome = true →
        version < registry.nextVersion subject := by
  unfold nextVersion
  split
  next hnone =>
    refine ⟨Int.one_pos, fun version hlive => ?_⟩
    have hpresent := (hkept.agrees.present subject).mpr ⟨version, hlive⟩
    rw [hnone] at hpresent
    cases hpresent
  next latest hlatest =>
    have hgreatest := hkept.agrees.latest subject latest hlatest
    have hpositive := hkept.positive subject latest hgreatest.1
    have hbound := hroom latest hlatest
    rw [wrap32_of_lt (by omega) (by omega)]
    refine ⟨by omega, fun version hlive => ?_⟩
    have hle : version ≤ latest := hgreatest.2 hlive
    omega

section Store

variable {request : RegisterSchemaRequest}

/-- A schema that is stored under a free identifier and in a free place leaves
the others where they were. -/
structure Free (registry : SchemaRegistry) (schema : Schema) : Prop where
  id : registry.schemas.find? schema.id = none
  newest : ∀ version, (registry.version? schema.subject version).isSome = true →
      version < schema.version
  positive : 0 < schema.version

variable {schema old : Schema}

theorem Free.schemas_old (hfree : registry.Free schema) {id : Int}
    (hold : registry.schemas.find? id = some old) :
    (registry.store fingerprint schema).schemas.find? id = some old := by
  change (registry.schemas.insert _ _).find? id = _
  rw [find?_insert_of_ne, hold]
  rintro rfl
  exact nomatch hfree.id.symm.trans hold

theorem liveVersions_store (schema : Schema) (subject : Bytes) :
    (registry.store fingerprint schema).LiveVersions subject =
      if schema.subject = subject
      then insert schema.version (registry.LiveVersions subject)
      else registry.LiveVersions subject := by
  ext version
  unfold LiveVersions
  rw [Set.mem_ofPred_eq, version?_store]
  by_cases hsubject : schema.subject = subject
  · by_cases hversion : schema.version = version
    · simp [hsubject, hversion]
    · simp [hsubject, hversion, Ne.symm hversion]
  · simp [hsubject]

theorem agrees_store (hagrees : registry.Agrees fingerprint)
    (hfree : registry.Free schema) :
    (registry.store fingerprint schema).Agrees fingerprint where
  byId id found hfound := by
    change (registry.schemas.insert _ _).find? id = _ at hfound
    rw [find?_insert] at hfound
    split at hfound
    next hid =>
      cases hfound
      exact ⟨hid, by rw [version?_store, if_pos ⟨rfl, rfl⟩]⟩
    · obtain ⟨hid, hversion⟩ := hagrees.byId id found hfound
      refine ⟨hid, ?_⟩
      rw [version?_store, if_neg, hversion]
      rintro ⟨hsubject, hnumber⟩
      rw [← hsubject, ← hnumber] at hversion
      exact lt_irrefl _ (hfree.newest _ (isSome_of_eq_some hversion))
  byVersion subject version found hfound := by
    rw [version?_store] at hfound
    split at hfound
    next hsame =>
      cases hfound
      exact ⟨hsame.1, hsame.2, find?_insert_self _ _ _⟩
    · obtain ⟨hsubject, hversion, hid⟩ :=
        hagrees.byVersion subject version found hfound
      exact ⟨hsubject, hversion, hfree.schemas_old hid⟩
  present subject := by
    change ((registry.subjectLatest.insert _ _).find? subject).isSome = true ↔ _
    rw [find?_insert, liveVersions_store]
    split
    · exact iff_of_true rfl (Set.insert_nonempty _ _)
    · exact hagrees.present subject
  latest subject version hlatest := by
    change (registry.subjectLatest.insert _ _).find? subject = _ at hlatest
    rw [find?_insert] at hlatest
    rw [liveVersions_store]
    split at hlatest
    next hsubject =>
      cases hlatest
      rw [if_pos hsubject]
      refine ⟨Set.mem_insert _ _, ?_⟩
      rintro other (rfl | hother)
      · exact le_rfl
      · exact (hfree.newest other (hsubject ▸ hother)).le
    next hsubject =>
      rw [if_neg hsubject]
      exact hagrees.latest subject version hlatest
  prints subject print id hprint := by
    rw [fingerprint?_store] at hprint
    split at hprint
    next hsame =>
      cases hprint
      exact ⟨schema, find?_insert_self _ _ _, hsame⟩
    · obtain ⟨found, hfound, howner⟩ := hagrees.prints subject print id hprint
      exact ⟨found, hfree.schemas_old hfound, howner⟩

theorem kept_store (hkept : registry.Kept fingerprint)
    (hfree : registry.Free schema) :
    (registry.store fingerprint schema).Kept fingerprint := by
  refine ⟨agrees_store hkept.agrees hfree, fun subject version hlive => ?_⟩
  rw [version?_store] at hlive
  split at hlive
  next hsame => exact hsame.2 ▸ hfree.positive
  · exact hkept.positive subject version hlive

/-- A schema that is registered soundly has a free place. -/
theorem free_freshSchema (hkept : registry.Kept fingerprint)
    (hsound : registry.SoundDecision request .fresh) :
    registry.Free (registry.freshSchema request) := by
  have hroom : ∀ latest, registry.subjectLatest.find? request.subject = some latest →
        latest < 2 ^ 31 - 1 := by
    intro latest hlatest
    have hall := hsound.2
    rw [hlatest] at hall
    exact of_decide_eq_true hall
  obtain ⟨hpositive, hnewest⟩ := hkept.nextVersion_gt hroom
  exact ⟨hsound.1, hnewest, hpositive⟩

end Store

variable {request : RegisterSchemaRequest}

theorem kept_registerSchema (hkept : registry.Kept fingerprint)
    (hsound : registry.Sound validator fingerprint (.registerSchema request)) :
    (registry.registerSchema validator fingerprint request).1.Kept
      fingerprint := by
  unfold Sound at hsound
  unfold registerSchema
  split
  · exact hkept
  · exact hkept
  next hfresh =>
    dsimp only at hsound
    rw [hfresh] at hsound
    exact kept_store hkept (free_freshSchema hkept hsound)

theorem resolves_of_sound (hinjective : Function.Injective fingerprint)
    (hkept : registry.Kept fingerprint)
    (hsound : registry.Sound validator fingerprint (.registerSchema request)) :
    registry.Resolves validator fingerprint request := by
  intro id hid
  unfold Sound at hsound
  unfold registerSchema at hid ⊢
  dsimp only at hsound
  cases hdecision : registry.decision validator fingerprint request with
  | refused error =>
    rw [hdecision] at hid
    cases hid
  | known found =>
    rw [hdecision] at hid hsound
    cases hid
    have hprint : registry.fingerprint? request.subject
        (fingerprint request.definition) = some id := by
      unfold decision at hdecision
      split at hdecision
      · cases hdecision
      · split at hdecision
        · cases hdecision
        · split at hdecision
          next hprint =>
            cases hdecision
            exact hprint
          · split at hdecision <;> cases hdecision
    obtain ⟨schema, hschema, hsubject, hdefinition⟩ :=
      hkept.agrees.prints _ _ _ hprint
    refine ⟨schema, ?_, hsubject, ?_, hinjective hdefinition⟩
    · dsimp only
      rw [getSchema, hschema]
    · rw [SoundDecision, hschema] at hsound
      exact of_decide_eq_true hsound
  | fresh =>
    rw [hdecision] at hid
    cases hid
    refine ⟨registry.freshSchema request, ?_, rfl, rfl, rfl⟩
    dsimp only [getSchema, store]
    rw [find?_insert_self]

/-- The registry without a subject. -/
structure Without (subject : Bytes) (registry after : SchemaRegistry) : Prop where
  schemas : ∀ id, after.schemas.find? id =
    (registry.schemas.find? id).filter fun schema =>
      decide (schema.subject ≠ subject)
  subjectSchemas : after.subjectSchemas = registry.subjectSchemas.erase subject
  subjectLatest : after.subjectLatest = registry.subjectLatest.erase subject
  fingerprints : after.fingerprints = registry.fingerprints.erase subject

section

variable (hwithout : Without subject registry after)

include hwithout

theorem Without.version? (other : Bytes) (version : Int) :
    after.version? other version =
      if subject = other then none else registry.version? other version := by
  rw [SchemaRegistry.version?, hwithout.subjectSchemas, find?_erase]
  split <;> rfl

theorem Without.fingerprint? (other print : Bytes) : after.fingerprint? other print =
      if subject = other then none
      else registry.fingerprint? other print := by
  rw [SchemaRegistry.fingerprint?, hwithout.fingerprints, find?_erase]
  split <;> rfl

theorem Without.liveVersions {other : Bytes} (hne : subject ≠ other) :
    after.LiveVersions other = registry.LiveVersions other := by
  ext version
  unfold LiveVersions
  rw [Set.mem_ofPred_eq, hwithout.version?, if_neg hne]
  rfl

theorem Without.agrees (hagrees : registry.Agrees fingerprint) :
    after.Agrees fingerprint where
  byId id schema hschema := by
    rw [hwithout.schemas, filter_eq_some_iff] at hschema
    obtain ⟨hid, hversion⟩ := hagrees.byId id schema hschema.1
    refine ⟨hid, ?_⟩
    rw [hwithout.version?, if_neg (Ne.symm (of_decide_eq_true hschema.2)), hversion]
  byVersion other version schema hschema := by
    rw [hwithout.version?] at hschema
    split at hschema
    · cases hschema
    next hne =>
      obtain ⟨hsubject, hversion, hid⟩ :=
        hagrees.byVersion other version schema hschema
      refine ⟨hsubject, hversion, ?_⟩
      rw [hwithout.schemas, filter_eq_some_iff]
      exact ⟨hid, decide_eq_true (hsubject ▸ Ne.symm hne)⟩
  present other := by
    rw [hwithout.subjectLatest, find?_erase]
    split
    next heq =>
      refine iff_of_false Bool.false_ne_true ?_
      rintro ⟨version, hlive⟩
      change (after.version? other version).isSome = true at hlive
      rw [hwithout.version?, if_pos heq] at hlive
      cases hlive
    next hne =>
      rw [hwithout.liveVersions hne]
      exact hagrees.present other
  latest other version hlatest := by
    rw [hwithout.subjectLatest, find?_erase] at hlatest
    split at hlatest
    · cases hlatest
    next hne =>
      rw [hwithout.liveVersions hne]
      exact hagrees.latest other version hlatest
  prints other print id hprint := by
    rw [hwithout.fingerprint?] at hprint
    split at hprint
    · cases hprint
    next hne =>
      obtain ⟨schema, hschema, hsubject, hdefinition⟩ :=
        hagrees.prints other print id hprint
      refine ⟨schema, ?_, hsubject, hdefinition⟩
      rw [hwithout.schemas, filter_eq_some_iff]
      exact ⟨hschema, decide_eq_true (hsubject ▸ Ne.symm hne)⟩

theorem Without.kept (hkept : registry.Kept fingerprint) :
    after.Kept fingerprint := by
  refine ⟨hwithout.agrees hkept.agrees, fun other version hlive => ?_⟩
  rw [hwithout.version?] at hlive
  split at hlive
  · cases hlive
  · exact hkept.positive other version hlive

end

theorem find?_foldl_erase (schemas : OrderedMap Int Schema)
    (entries : List (Int × Schema)) (id : Int) :
    (entries.foldl (fun schemas entry => schemas.erase entry.2.id) schemas).find? id =
      if ∃ entry ∈ entries, entry.2.id = id then none
      else schemas.find? id := by
  induction entries generalizing schemas with
  | nil => simp
  | cons entry rest ih =>
    rw [foldl_cons, ih, find?_erase]
    by_cases hrest : ∃ entry ∈ rest, entry.2.id = id
    · simp [hrest]
    · by_cases hhead : entry.2.id = id
      · simp [hhead]
      · simp [hrest, hhead]

section

variable (hagrees : registry.Agrees fingerprint)
  (hversions : registry.subjectSchemas.find? subject = some versions)

include hagrees hversions

/-- The identifiers of a subject's versions are those of its schemas. -/
theorem Agrees.ids_of_subject (id : Int) :
    (if ∃ entry ∈ versions.entries, entry.2.id = id then none
      else registry.schemas.find? id) =
      (registry.schemas.find? id).filter fun schema =>
        decide (schema.subject ≠ subject) := by
  have hlive : ∀ version schema, versions.find? version = some schema →
      registry.version? subject version = some schema := by
    intro version schema hschema
    rw [SchemaRegistry.version?, hversions]
    exact hschema
  split
  next hentry =>
    obtain ⟨⟨version, schema⟩, hmem, rfl⟩ := hentry
    obtain ⟨hsubject, -, hid⟩ := hagrees.byVersion subject version schema
      (hlive version schema ((versions.mem_entries_iff _ _).mp hmem))
    rw [hid]
    simp [Option.filter, hsubject]
  next hnone =>
    cases hschema : registry.schemas.find? id with
    | none => rfl
    | some schema =>
      obtain ⟨hid, hversion⟩ := hagrees.byId id schema hschema
      have hne : schema.subject ≠ subject := by
        rintro rfl
        rw [SchemaRegistry.version?, hversions] at hversion
        exact hnone ⟨(schema.version, schema),
          (versions.mem_entries_iff _ _).mpr hversion, hid⟩
      simp [Option.filter, hne]

theorem without_deleteSubject :
    Without subject registry (registry.deleteSubject subject).1 := by
  unfold deleteSubject
  rw [hversions]
  refine ⟨fun id => ?_, rfl, rfl, rfl⟩
  rw [← hagrees.ids_of_subject hversions]
  exact find?_foldl_erase registry.schemas versions.entries id

end

theorem kept_deleteSubject (hkept : registry.Kept fingerprint) (subject : Bytes) :
    (registry.deleteSubject subject).1.Kept fingerprint := by
  cases hversions : registry.subjectSchemas.find? subject with
  | none =>
    unfold deleteSubject
    rw [hversions]
    exact hkept
  | some versions =>
    exact (without_deleteSubject hkept.agrees hversions).kept hkept

variable {version : Int}

theorem without_deleteSchema (hagrees : registry.Agrees fingerprint) {schema : Schema}
    (hversions : registry.subjectSchemas.find? subject = some versions)
    (hentries : versions.entries = [(version, schema)]) :
    Without subject registry
      (registry.dropVersion subject version versions schema) := by
  have hfind : versions.find? version = some schema := by
    rw [← versions.mem_entries_iff, hentries]
    exact mem_singleton_self _
  have hleft : versions.erase version = ∅ := by
    apply ext_find?
    intro other
    rw [find?_erase]
    split
    · rfl
    next hne =>
      by_contra hsome
      obtain ⟨found, hfound⟩ := ne_none_iff_exists'.mp hsome
      rw [← versions.mem_entries_iff, hentries, mem_singleton] at hfound
      exact hne (Prod.mk.inj hfound).1.symm
  have hlatest : registry.subjectLatest.find? subject = some version := by
    have hlive : ∀ other, other ∈ registry.LiveVersions subject →
        other = version := by
      intro other hother
      change (registry.version? subject other).isSome = true at hother
      rw [SchemaRegistry.version?, hversions, bind_some] at hother
      obtain ⟨found, hfound⟩ := isSome_iff_exists.mp hother
      rw [← versions.mem_entries_iff, hentries, mem_singleton] at hfound
      exact (Prod.mk.inj hfound).1
    have hsome := (hagrees.present subject).mpr ⟨version, by
      change (registry.version? subject version).isSome = true
      rw [SchemaRegistry.version?, hversions, bind_some, hfind]
      rfl⟩
    obtain ⟨latest, hlatest⟩ := isSome_iff_exists.mp hsome
    rw [hlatest, hlive latest (hagrees.latest subject latest hlatest).1]
  unfold dropVersion
  rw [hleft, hlatest]
  refine ⟨fun id => ?_, ?_, ?_, ?_⟩
  · rw [← hagrees.ids_of_subject hversions, hentries]
    rw [find?_erase]
    simp
  · dsimp only
    rw [if_pos rfl]
  · dsimp only
    rw [if_pos rfl, if_neg (by decide)]
  · dsimp only
    rw [if_pos rfl]

theorem kept_deleteSchema (hkept : registry.Kept fingerprint)
    (hsound : registry.Sound validator fingerprint (.deleteSchema subject version)) :
    (registry.deleteSchema subject version).1.Kept fingerprint := by
  unfold deleteSchema
  split
  · exact hkept
  next versions hversions =>
    split
    · exact hkept
    · rename_i schema hschema
      have hlength : versions.entries.length = 1 := by
        have honly := hsound (by
          rw [SchemaRegistry.version?, hversions, bind_some, hschema]
          rfl)
        rw [hversions] at honly
        exact of_decide_eq_true honly
      obtain ⟨entry, hentry⟩ := length_eq_one_iff.mp hlength
      have hmem := (versions.mem_entries_iff version schema).mpr hschema
      rw [hentry, mem_singleton] at hmem
      subst hmem
      exact (without_deleteSchema hkept.agrees hversions hentry).kept hkept

theorem kept_step (hkept : registry.Kept fingerprint) {op : RegistryOp}
    (hsound : registry.Sound validator fingerprint op) :
    (registry.step validator fingerprint op).Kept fingerprint := by
  cases op with
  | registerSchema request =>
    exact kept_registerSchema validator hkept hsound
  | deleteSchema subject version =>
    exact kept_deleteSchema validator hkept hsound
  | deleteSubject subject => exact kept_deleteSubject hkept subject
  | updateCompatibility subject mode =>
    unfold step updateCompatibility
    dsimp only
    split
    · exact ⟨⟨hkept.agrees.byId, hkept.agrees.byVersion,
        hkept.agrees.present, hkept.agrees.latest, hkept.agrees.prints⟩,
        hkept.positive⟩
    · exact hkept

/-- In a sound run the maps agree, and what is registered soundly can be got
under the identifier that was handed out. -/
theorem agrees_of_sound (hinjective : Function.Injective fingerprint)
    {ops : List RegistryOp} (hsound : AllAllowed (step validator fingerprint)
      (Sound validator fingerprint) new ops) :
    (runSteps (step validator fingerprint) new ops).Agrees fingerprint ∧
      ∀ request, (runSteps (step validator fingerprint) new ops).Sound
          validator fingerprint (.registerSchema request) →
        (runSteps (step validator fingerprint) new ops).Resolves validator
          fingerprint request := by
  have hkept : (runSteps (step validator fingerprint) new ops).Kept
      fingerprint :=
    hsound.invariant (Kept fingerprint)
      (fun _ _ hrun hop => kept_step validator hrun hop) (kept_new fingerprint)
  exact ⟨hkept.agrees, fun request hrequest =>
    resolves_of_sound validator hinjective hkept hrequest⟩

/-- Two versions of a subject and one of another, the latter deleted. -/
def registered : List RegistryOp :=
  [.registerSchema ⟨[115], .json, [1]⟩, .registerSchema ⟨[115], .json, [2]⟩,
    .registerSchema ⟨[116], .avro, [1]⟩, .deleteSchema [116] 1,
    .registerSchema ⟨[115], .json, [1]⟩]

theorem agrees_of_sound_registered :
    AllAllowed (step none id) (Sound none id) new registered ∧
      (runSteps (step none id) new registered).subjectLatest.find? [115] = some 2 ∧
      (runSteps (step none id) new registered).Agrees id ∧
      (runSteps (step none id) new registered).Resolves none id
        ⟨[115], .json, [2]⟩ := by
  have hsound : AllAllowed (step none id) (Sound none id) new registered := by
    decide +kernel
  obtain ⟨hagrees, hresolves⟩ := agrees_of_sound none Function.injective_id hsound
  exact ⟨hsound, by decide +kernel, hagrees, hresolves _ (by decide +kernel)⟩

/-- The first of two versions is deleted. -/
def stale : List RegistryOp :=
  [.registerSchema ⟨[115], .json, [1]⟩, .registerSchema ⟨[115], .json, [2]⟩,
    .deleteSchema [115] 1]

/-- Its fingerprint stays, and registering it again hands out its old
identifier, under which there is nothing. -/
theorem stale_not_resolved : ¬ (runSteps (step none id) new stale).Agrees id ∧
      ¬ (runSteps (step none id) new stale).Resolves none id ⟨[115], .json, [1]⟩ := by
  have hprint : (runSteps (step none id) new stale).fingerprint? [115] [1] =
      some 2 := by
    decide +kernel
  have hgone : (runSteps (step none id) new stale).schemas.find? 2 = none := by
    decide +kernel
  constructor
  · intro hagrees
    obtain ⟨schema, hschema, -⟩ := hagrees.prints _ _ _ hprint
    exact nomatch hgone.symm.trans hschema
  · intro hresolves
    obtain ⟨schema, hschema, -⟩ := hresolves 2 (by decide +kernel)
    have hnothing : (((runSteps (step none id) new stale).registerSchema none
        id ⟨[115], .json, [1]⟩).1.getSchema 2).isOk = false := by
      decide +kernel
    rw [hschema] at hnothing
    cases hnothing

end SchemaRegistry

end Streambus.Schemas
