/-
The validation of messages against schemas, and the evolution of a subject.  A
JSON schema constrains the kind of a value by its type, an object by its
required fields, and fields by the schemas of properties; an Avro schema is a
record with fields, or constrains the text of the message.  A later JSON schema
accepts all that an earlier one accepts if it allows every kind of value,
requires no further field, and its properties do the same in turn; the
compatibility check does not compare all of these.
-/
import Streambus.Json
import Streambus.SchemaIndexes
import Streambus.TextFormat

namespace Streambus.Schemas

open Json

inductive DataError where
  | emptyData
  | unsupportedFormat
  | invalidDefinition
  | invalidMessage
  | expected (type : Bytes) (found : JsonKind)
  | missingField (name : Bytes)
  | inField (name : Bytes) (error : DataError)
  | expectedAvro (type : Bytes)

/-- The characters that `strings.TrimSpace` takes for space. -/
def spaces : List Bytes :=
  [[9], [10], [11], [12], [13], [32], [194, 133], [194, 160], [225, 154, 128],
    [226, 128, 168], [226, 128, 169], [226, 128, 175], [226, 129, 159],
    [227, 128, 128]] ++
    (List.range 11).map fun index => [226, 128, 128 + UInt8.ofNat index]

/-- Take words away from the start, at most a number of them. -/
def dropWords (words : List Bytes) : Nat → Bytes → Bytes
  | 0, text => text
  | count + 1, text =>
    match words.find? fun word => word.isPrefixOf text with
    | some word => dropWords words count (text.drop word.length)
    | none => text

def trimSpace (text : Bytes) : Bytes :=
  let rest := dropWords spaces text.length text
  (dropWords (spaces.map List.reverse) rest.length rest.reverse).reverse

/-- A message with what its bytes are decoded to, as any value and as a number.
A number may be too large for a value, and `null` and the text of a number are
taken for numbers too. -/
structure MessageData where
  data : Bytes
  value : Option Json
  number : Bool
  numeric : ∀ found ∈ value, (found.kind = .number → number = true) ∧
    (number = true → found.kind ∈ [.number, .null, .string])

def MessageData.trimmed (message : MessageData) : Bytes :=
  trimSpace message.data

/-- The kind that a type name stands for; other names do not constrain. -/
def typeKind (type : Bytes) : Option JsonKind :=
  if type = textBytes "object" then some .object
  else if type = textBytes "array" then some .array
  else if type = textBytes "string" then some .string
  else if type = textBytes "number" ∨ type = textBytes "integer" then
    some .number
  else if type = textBytes "boolean" then some .bool
  else if type = textBytes "null" then some .null
  else none

/-- The type of a definition, if it is a string. -/
def typeName? (schema : JsonObject) : Option Bytes :=
  (member? (textBytes "type") schema).bind text?

def getRequiredFields (schema : JsonObject) : List Bytes :=
  match member? (textBytes "required") schema with
  | some required => required.items.filterMap text?
  | none => []

def getProperties (schema : JsonObject) : JsonObject :=
  ((member? (textBytes "properties") schema).bind object?).getD []

/-- The schema of a property, if it is an object. -/
def propertySchema? (schema : JsonObject) (name : Bytes) : Option JsonObject :=
  (member? name (getProperties schema)).bind object?

def matchJSONType (type : Bytes) (value : Json) : Option DataError :=
  match typeKind type with
  | none => none
  | some kind =>
    if value.kind = kind then none else some (.expected type value.kind)

def checkJSONType (schema : JsonObject) (value : Json) : Option DataError :=
  match typeName? schema with
  | none => none
  | some type => matchJSONType type value

def checkRequired (schema members : JsonObject) : Option DataError :=
  (getRequiredFields schema).findSome? fun name =>
    match member? name members with
    | some _ => none
    | none => some (.missingField name)

mutual

def validateJSONValue (schema : JsonObject) : Json → Option DataError
  | .object members =>
    checkJSONType schema (.object members) <|>
      checkRequired schema members <|> checkProperties schema members
  | .null => checkJSONType schema .null
  | .bool flag => checkJSONType schema (.bool flag)
  | .number literal => checkJSONType schema (.number literal)
  | .string text => checkJSONType schema (.string text)
  | .array items => checkJSONType schema (.array items)

def checkProperties (schema : JsonObject) : List (Bytes × Json) → Option DataError
  | [] => none
  | (name, value) :: rest =>
    (match propertySchema? schema name with
      | none => none
      | some property =>
        (validateJSONValue property value).map (.inField name)) <|>
      checkProperties schema rest

end

def validateJSONData (schema : JsonObject) (message : MessageData) :
    Option DataError :=
  match message.value with
  | none => some .invalidMessage
  | some value => validateJSONValue schema value

inductive AvroKind where
  | record
  | string
  | number
  | boolean
  | null
  | other
deriving DecidableEq

/-- The type of a definition, empty if it is no string. -/
def avroType (schema : JsonObject) : Bytes := (typeName? schema).getD []

def avroKind (type : Bytes) : AvroKind :=
  if type = textBytes "record" then .record
  else if type = textBytes "string" then .string
  else if type = textBytes "int" ∨ type = textBytes "long" ∨
      type = textBytes "float" ∨ type = textBytes "double" then .number
  else if type = textBytes "boolean" then .boolean
  else if type = textBytes "null" then .null
  else .other

/-- The fields of a record that must be in a message. -/
def requiredAvroFields (schema : JsonObject) : List Bytes :=
  match member? (textBytes "fields") schema with
  | none => []
  | some fields => (fields.items.filterMap object?).filterMap fun field =>
    match (member? (textBytes "name") field).bind text? with
    | none => none
    | some name =>
      if name = [] ∨ (member? (textBytes "default") field).isSome then none
      else some name

def validateAvroRecord (schema : JsonObject) (message : MessageData) :
    Option DataError :=
  match message.value.bind map? with
  | none => some .invalidMessage
  | some record =>
    (requiredAvroFields schema).findSome? fun name =>
      match member? name record with
      | some _ => none
      | none => some (.missingField name)

/-- A text in quotes. -/
def isQuoted (text : Bytes) : Bool :=
  2 ≤ text.length ∧ text.head? = some 34 ∧ text.getLast? = some 34

def validateAvroPrimitive (type : Bytes) (message : MessageData) : Option DataError :=
  let valid := match avroKind type with
    | .string => isQuoted message.trimmed
    | .number => message.number
    | .boolean => message.trimmed = textBytes "true" ∨
        message.trimmed = textBytes "false"
    | .null => message.trimmed = textBytes "null"
    | .record | .other => true
  if valid then none else some (.expectedAvro type)

def validateAvroData (schema : JsonObject) (message : MessageData) :
    Option DataError :=
  if avroType schema = textBytes "record" then
    validateAvroRecord schema message
  else validateAvroPrimitive (avroType schema) message

/-- A message under a definition, which `parse` decodes. -/
def validateData (parse : Bytes → Option Json) (format : SchemaFormat)
    (definition : Bytes) (message : MessageData) : Option DataError :=
  if message.data = [] then some .emptyData
  else
    match format with
    | .json =>
      match (parse definition).bind map? with
      | none => some .invalidDefinition
      | some schema => validateJSONData schema message
    | .avro =>
      match (parse definition).bind map? with
      | none => some .invalidDefinition
      | some schema => validateAvroData schema message
    | .protobuf => none
    | .other _ => some .unsupportedFormat

namespace DefaultValidator

/-- The decoding of definitions, and what is checked of a Protobuf schema. -/
structure Parsing where
  json : Bytes → Option Json
  protobuf : Bytes → Bool

def Parsing.map? (parsing : Parsing) (definition : Bytes) : Option JsonObject :=
  (parsing.json definition).bind Json.map?

def validAvroTypes : List Bytes :=
  [textBytes "null", textBytes "boolean", textBytes "int", textBytes "long",
    textBytes "float", textBytes "double", textBytes "bytes",
    textBytes "string", textBytes "record", textBytes "enum",
    textBytes "array", textBytes "map", textBytes "fixed", textBytes "union"]

variable (parsing : Parsing)

def validateJSON (definition : Bytes) : Bool :=
  (parsing.map? definition).isSome

def validateAvro (definition : Bytes) : Bool :=
  match parsing.map? definition with
  | none => false
  | some schema =>
    match member? (textBytes "type") schema with
    | none => false
    | some (.string type) =>
      type ∈ validAvroTypes ∧ (type = textBytes "record" →
          (member? (textBytes "name") schema).isSome ∧
            (member? (textBytes "fields") schema).isSome)
    | some _ => true

def validate (format : SchemaFormat) (definition : Bytes) : Bool :=
  if definition = [] then false
  else
    match format with
    | .json => validateJSON parsing definition
    | .avro => validateAvro parsing definition
    | .protobuf => parsing.protobuf definition
    | .other _ => false

/-- A required field of the old definition is one of the new, or one of its
properties. -/
def checkBackwardCompatibleJSON (oldDef newDef : JsonObject) : Bool :=
  (getRequiredFields oldDef).all fun field =>
    field ∈ getRequiredFields newDef ∨ (member? field (getProperties newDef)).isSome

/-- A required field of the new definition is a property of the old, or has a
default; a property that is no object is not looked into. -/
def checkForwardCompatibleJSON (oldDef newDef : JsonObject) : Bool :=
  (getRequiredFields newDef).all fun field =>
    (member? field (getProperties oldDef)).isSome ||
      match propertySchema? newDef field with
      | none => true
      | some property => (member? (textBytes "default") property).isSome

def getAvroFields (schema : JsonObject) : List Bytes :=
  match member? (textBytes "fields") schema with
  | none => []
  | some fields => (fields.items.filterMap object?).filterMap fun field =>
    (member? (textBytes "name") field).bind text?

def checkAvroBackwardCompatible (oldDef newDef : JsonObject) : Bool :=
  avroType oldDef = avroType newDef ∧ (avroType oldDef = textBytes "record" →
      ∀ field ∈ getAvroFields oldDef, field ∈ getAvroFields newDef)

/-- New fields are looked for, but nothing is made of them. -/
def checkAvroForwardCompatible (_oldDef _newDef : JsonObject) : Bool := true

/-- The checks that a mode asks for. -/
def checkMode (backward forward : JsonObject → JsonObject → Bool)
    (mode : CompatibilityMode) (oldDef newDef : JsonObject) : Option Bool :=
  let compatible := match mode with
    | .backward | .backwardTransitive => backward oldDef newDef
    | .forward | .forwardTransitive => forward oldDef newDef
    | .full | .fullTransitive =>
      backward oldDef newDef && forward oldDef newDef
    | .none | .other _ => false
  if compatible then some true else none

def checkProtobufCompatibility : CompatibilityMode → Option Bool
  | .none | .other _ => none
  | _ => some true

def checkCompatibility (format : SchemaFormat) (oldSchema newSchema : Bytes)
    (mode : CompatibilityMode) : Option Bool :=
  if validate parsing format oldSchema ∧ validate parsing format newSchema then
    if mode = .none then some true
    else
      match format with
      | .json => do
          let oldDef ← parsing.map? oldSchema
          let newDef ← parsing.map? newSchema
          checkMode checkBackwardCompatibleJSON checkForwardCompatibleJSON
            mode oldDef newDef
      | .avro => do
          let oldDef ← parsing.map? oldSchema
          let newDef ← parsing.map? newSchema
          checkMode checkAvroBackwardCompatible checkAvroForwardCompatible
            mode oldDef newDef
      | .protobuf => checkProtobufCompatibility mode
      | .other _ => none
  else none

end DefaultValidator

def defaultValidator (parsing : DefaultValidator.Parsing) : SchemaValidator :=
  ⟨DefaultValidator.validate parsing, DefaultValidator.checkCompatibility parsing⟩

open Json List Option

/-- The type of a definition allows values of a kind. -/
def Allows (schema : JsonObject) (kind : JsonKind) : Prop :=
  ∀ allowed ∈ (typeName? schema).bind typeKind, kind = allowed

variable {schema : JsonObject} {value : Json} {members : JsonObject}
  {names : List Bytes} (kind : AvroKind)

theorem checkJSONType_eq_none :
    checkJSONType schema value = none ↔ Allows schema value.kind := by
  unfold checkJSONType Allows
  cases typeName? schema with
  | none => simp
  | some type =>
    unfold matchJSONType
    cases hkind : typeKind type with
    | none | some kind => simp [hkind]

theorem checkRequired_eq_none : checkRequired schema members = none ↔
      ∀ name ∈ getRequiredFields schema, (member? name members).isSome = true := by
  unfold checkRequired
  rw [findSome?_eq_none_iff]
  refine forall₂_congr fun name _ => ?_
  cases member? name members <;> simp

theorem checkProperties_eq_none : checkProperties schema members = none ↔
      ∀ entry ∈ members, ∀ property ∈ propertySchema? schema entry.1,
        validateJSONValue property entry.2 = none := by
  induction members with
  | nil => simp [checkProperties]
  | cons entry rest ih =>
    obtain ⟨name, value⟩ := entry
    rw [checkProperties, forall_mem_cons, ← ih]
    cases propertySchema? schema name with
    | none | some property => simp

theorem validate_object : validateJSONValue schema (.object members) = none ↔
      Allows schema .object ∧
      (∀ name ∈ getRequiredFields schema, (member? name members).isSome = true) ∧
      ∀ entry ∈ members, ∀ property ∈ propertySchema? schema entry.1,
        validateJSONValue property entry.2 = none := by
  rw [validateJSONValue, ← checkProperties_eq_none, ← checkRequired_eq_none]
  have htype : checkJSONType schema (.object members) = none ↔
      Allows schema .object := checkJSONType_eq_none
  rw [← htype]
  simp

theorem validate_of_kind_ne (hkind : value.kind ≠ .object) :
    validateJSONValue schema value = none ↔ Allows schema value.kind := by
  rw [← checkJSONType_eq_none]
  cases value with
  | object members => exact absurd rfl hkind
  | _ => rw [validateJSONValue]

/-- The kind of an accepted value is allowed. -/
theorem allows_of_validate (hvalid : validateJSONValue schema value = none) :
    Allows schema value.kind := by
  cases value with
  | object members => exact (validate_object.mp hvalid).1
  | _ => exact (validate_of_kind_ne (by simp [kind])).mp hvalid

theorem validate_nil (value : Json) : validateJSONValue [] value = none := by
  have hallows : ∀ kind, Allows [] kind := by
    intro kind allowed hallowed
    nomatch hallowed
  cases value with
  | object members =>
    rw [validate_object]
    refine ⟨hallows _, fun name hname => ?_, fun entry _ property hproperty => ?_⟩
    · nomatch hname
    · nomatch hproperty
  | _ => exact (validate_of_kind_ne (by simp [kind])).mpr (hallows _)

/-- The new schema allows every kind of value that the old one allows, and
where that may be an object, requires no other field and has no narrower
property. -/
inductive Widens : JsonObject → JsonObject → Prop
  | intro {old new : JsonObject} (kinds : ∀ kind, Allows old kind → Allows new kind)
      (required : Allows old .object → getRequiredFields new ⊆ getRequiredFields old)
      (properties : Allows old .object → ∀ name property,
        propertySchema? new name = some property →
          Widens ((propertySchema? old name).getD []) property) :
      Widens old new

variable {entry : Bytes × Json} {field : Bytes → Json} {message : MessageData}

theorem Widens.validate {old new : JsonObject} (hwidens : Widens old new) :
    ∀ value, validateJSONValue old value = none →
      validateJSONValue new value = none := by
  induction hwidens with
  | @intro old new hkinds hrequired _ ih =>
    intro value hvalid
    have hallows := allows_of_validate hvalid
    cases value with
    | object members =>
      obtain ⟨-, hfields, -⟩ := validate_object.mp hvalid
      refine validate_object.mpr ⟨hkinds _ hallows, ?_, ?_⟩
      · intro name hname
        exact hfields name (hrequired hallows hname)
      · intro entry hentry property hproperty
        apply ih hallows entry.1 property hproperty entry.2
        cases hold : propertySchema? old entry.1 with
        | none => exact validate_nil entry.2
        | some property =>
          exact (validate_object.mp hvalid).2.2 entry hentry property hold
    | _ =>
      exact (validate_of_kind_ne (by simp [kind])).mpr (hkinds _ hallows)

/-- An object with given fields. -/
def sampleObject (names : List Bytes) (field : Bytes → Json) : Json :=
  .object (names.dedup.map fun name => (name, field name))

theorem mem_sampleObject : entry ∈ names.dedup.map (fun name => (name, field name)) ↔
      entry.1 ∈ names ∧ entry.2 = field entry.1 := by
  rw [List.mem_map]
  constructor
  · rintro ⟨name, hname, rfl⟩
    exact ⟨mem_dedup.mp hname, rfl⟩
  · rintro ⟨hname, hvalue⟩
    exact ⟨entry.1, mem_dedup.mpr hname, Prod.ext rfl hvalue.symm⟩

theorem validate_sampleObject :
    validateJSONValue schema (sampleObject names field) = none ↔
      Allows schema .object ∧ getRequiredFields schema ⊆ names ∧
      ∀ name ∈ names, ∀ property ∈ propertySchema? schema name,
        validateJSONValue property (field name) = none := by
  rw [sampleObject, validate_object]
  refine and_congr_right fun _ => and_congr ?_ ?_
  · refine forall₂_congr fun name _ => ?_
    rw [member?_isSome]
    simp only [mem_sampleObject]
    exact ⟨fun ⟨_, hname, _⟩ => hname, fun hname => ⟨_, hname, rfl⟩⟩
  · constructor
    · intro hentries name hname
      exact hentries (name, field name) (mem_sampleObject.mpr ⟨hname, rfl⟩)
    · rintro hnames entry hentry property hproperty
      obtain ⟨hname, hvalue⟩ := mem_sampleObject.mp hentry
      rw [hvalue]
      exact hnames entry.1 hname property hproperty

theorem sizeOf_propertySchema_lt {property : JsonObject} {name : Bytes}
    (hproperty : propertySchema? schema name = some property) :
    sizeOf property < sizeOf schema := by
  obtain ⟨value, hvalue, hobject⟩ := bind_eq_some_iff.mp hproperty
  have hinner := sizeOf_object_lt hobject
  have hmember := sizeOf_member_lt hvalue
  unfold getProperties at hmember
  cases hproperties : (member? (textBytes "properties") schema).bind object? with
  | none =>
    rw [getProperties, hproperties] at hvalue
    nomatch hvalue
  | some properties =>
    rw [hproperties] at hmember
    obtain ⟨outer, houter, hmap⟩ := bind_eq_some_iff.mp hproperties
    have hfirst := sizeOf_object_lt hmap
    have hsecond := sizeOf_member_lt houter
    change sizeOf value < sizeOf properties at hmember
    omega

/-- Every schema accepts a value: of the kind it asks for, or an object with
the required fields. -/
theorem exists_validate (schema : JsonObject) :
    ∃ value, validateJSONValue schema value = none := by
  have hproperties : ∀ name, ∃ value, ∀ property ∈ propertySchema? schema name,
        validateJSONValue property value = none := by
    intro name
    cases hproperty : propertySchema? schema name with
    | none => exact ⟨.null, fun _ hnone => nomatch hnone⟩
    | some property =>
      have hsmaller := sizeOf_propertySchema_lt hproperty
      obtain ⟨value, hvalue⟩ := exists_validate property
      refine ⟨value, fun other hother => ?_⟩
      obtain rfl := Option.some.inj hother
      exact hvalue
  by_cases hobject : Allows schema .object
  · choose field hfield using hproperties
    exact ⟨sampleObject (getRequiredFields schema) field,
      validate_sampleObject.mpr ⟨hobject, List.Subset.refl _,
        fun name _ => hfield name⟩⟩
  · unfold Allows at hobject
    push Not at hobject
    obtain ⟨allowed, hallowed, hne⟩ := hobject
    refine ⟨ofKind allowed, ?_⟩
    rw [validate_of_kind_ne (by rw [kind_ofKind]; exact Ne.symm hne), kind_ofKind]
    intro other hother
    exact Option.some.inj (hallowed.symm.trans hother)
termination_by sizeOf schema

/-- Values for all properties of a schema at once. -/
theorem exists_fields (schema : JsonObject) : ∃ field : Bytes → Json,
    ∀ name, ∀ property ∈ propertySchema? schema name,
      validateJSONValue property (field name) = none := by
  have hproperties : ∀ name, ∃ value, ∀ property ∈ propertySchema? schema name,
        validateJSONValue property value = none := by
    intro name
    obtain ⟨value, hvalue⟩ :=
      exists_validate ((propertySchema? schema name).getD [])
    refine ⟨value, fun property hproperty => ?_⟩
    rw [mem_def.mp hproperty] at hvalue
    exact hvalue
  choose field hfield using hproperties
  exact ⟨field, hfield⟩

/-- A schema that accepts all that another accepts is wider. -/
theorem widens_of_validate {old new : JsonObject}
    (haccepts : ∀ value, validateJSONValue old value = none →
      validateJSONValue new value = none) : Widens old new := by
  obtain ⟨field, hfield⟩ := exists_fields old
  have hleast : Allows old .object → validateJSONValue new
      (sampleObject (getRequiredFields old) field) = none := by
    intro hobject
    exact haccepts _ (validate_sampleObject.mpr
      ⟨hobject, List.Subset.refl _, fun name _ => hfield name⟩)
  constructor
  · intro kind hkind
    by_cases hobject : kind = .object
    · subst hobject
      exact (validate_sampleObject.mp (hleast hkind)).1
    · have hother : (ofKind kind).kind ≠ .object := by rwa [kind_ofKind]
      have hvalid := haccepts (ofKind kind)
        ((validate_of_kind_ne hother).mpr (by rwa [kind_ofKind]))
      simpa using allows_of_validate hvalid
  · intro hobject
    exact (validate_sampleObject.mp (hleast hobject)).2.1
  · intro hobject name property hproperty
    have hsmaller := sizeOf_propertySchema_lt hproperty
    apply widens_of_validate
    intro value hvalue
    -- an object whose field is the value, and that has all required fields
    have hsample : validateJSONValue old (sampleObject (name :: getRequiredFields old)
          (Function.update field name value)) = none := by
      refine validate_sampleObject.mpr
        ⟨hobject, subset_cons_self _ _, fun other _ found hfound => ?_⟩
      by_cases hother : other = name
      · subst hother
        rw [mem_def.mp hfound] at hvalue
        rw [Function.update_self]
        exact hvalue
      · rw [Function.update_of_ne hother]
        exact hfield other found hfound
    have hnew := (validate_sampleObject.mp (haccepts _ hsample)).2.2 name
      mem_cons_self property hproperty
    rwa [Function.update_self] at hnew
termination_by sizeOf new

theorem widens_iff {old new : JsonObject} : Widens old new ↔
    ∀ value, validateJSONValue old value = none →
      validateJSONValue new value = none :=
  ⟨Widens.validate, widens_of_validate⟩

/-- The new schema does not constrain the text, or constrains it as the old one
does; a record requires no other field. -/
def AvroWidens (old new : JsonObject) : Prop :=
  avroKind (avroType new) = .other ∨
    avroKind (avroType old) = avroKind (avroType new) ∧
      (avroKind (avroType new) = .record →
        requiredAvroFields new ⊆ requiredAvroFields old)

/-- The message is one of a kind of Avro schema. -/
def AvroAccepts (schema : JsonObject) (message : MessageData) : Prop :=
  match avroKind (avroType schema) with
  | .record => ∃ record, message.value.bind map? = some record ∧
      ∀ name ∈ requiredAvroFields schema, (member? name record).isSome = true
  | .string => isQuoted message.trimmed = true
  | .number => message.number = true
  | .boolean => message.trimmed = textBytes "true" ∨
      message.trimmed = textBytes "false"
  | .null => message.trimmed = textBytes "null"
  | .other => True

theorem avroKind_eq_record {type : Bytes} :
    avroKind type = .record ↔ type = textBytes "record" := by
  unfold avroKind
  split_ifs <;> simp_all

theorem validateAvroData_eq_none :
    validateAvroData schema message = none ↔ AvroAccepts schema message := by
  unfold validateAvroData AvroAccepts
  split_ifs with hrecord
  · rw [avroKind_eq_record.mpr hrecord]
    unfold validateAvroRecord
    cases message.value.bind map? with
    | none => simp
    | some record =>
      simp only [Option.some.injEq, exists_eq_left', findSome?_eq_none_iff]
      refine forall₂_congr fun name _ => ?_
      cases member? name record <;> simp
  · have hkind : avroKind (avroType schema) ≠ .record :=
      fun heq => hrecord (avroKind_eq_record.mp heq)
    unfold validateAvroPrimitive
    cases hcase : avroKind (avroType schema) with
    | record => exact absurd hcase hkind
    | boolean => simp [or_iff_not_imp_left]
    | _ => simp

/-- A text that is one of a kind of Avro schema only.  The text `null` may
have a space around it that is none in JSON. -/
def sampleText : AvroKind → Bytes
  | .record => textBytes "\x7b\x7d"
  | .string => textBytes "\"a\""
  | .number => textBytes "1"
  | .boolean => textBytes "true"
  | .null => textBytes "null" ++ [194, 160]
  | .other => textBytes "a"

def sampleValue (schema : JsonObject) : AvroKind → Option Json
  | .record => some (sampleObject (requiredAvroFields schema) fun _ => .null)
  | .string => some (.string (textBytes "a"))
  | .number => some (.number (textBytes "1"))
  | .boolean => some (.bool true)
  | .null | .other => none

/-- A message that a schema accepts, and others only if they are wider. -/
def sampleMessage (schema : JsonObject) : MessageData where
  data := sampleText (avroKind (avroType schema))
  value := sampleValue schema (avroKind (avroType schema))
  number := avroKind (avroType schema) = .number
  numeric := by
    cases avroKind (avroType schema) <;>
      simp [sampleValue, sampleObject, Json.kind]

theorem isQuoted_sampleText :
    isQuoted (trimSpace (sampleText kind)) = true ↔ kind = .string := by
  cases kind <;> decide +kernel

theorem sampleText_eq_boolean : (trimSpace (sampleText kind) = textBytes "true" ∨
      trimSpace (sampleText kind) = textBytes "false") ↔ kind = .boolean := by
  cases kind <;> decide +kernel

theorem sampleText_eq_null :
    trimSpace (sampleText kind) = textBytes "null" ↔ kind = .null := by
  cases kind <;> decide +kernel

/-- Only the message of a record is decoded to an object, and it has the
required fields. -/
theorem sampleValue_record {kind : AvroKind} :
    (∃ record, (sampleValue schema kind).bind map? = some record ∧
      ∀ name ∈ names, (member? name record).isSome = true) ↔
      kind = .record ∧ names ⊆ requiredAvroFields schema := by
  cases kind with
  | record =>
    simp only [sampleValue, sampleObject, bind_some, map?,
      Option.some.injEq, exists_eq_left', member?_isSome, true_and]
    refine forall₂_congr fun name _ => ?_
    simp only [mem_sampleObject]
    exact ⟨fun ⟨_, hname, _⟩ => hname, fun hname => ⟨_, hname, rfl⟩⟩
  | _ => simp [sampleValue, map?]

theorem accepts_sampleMessage {old new : JsonObject} :
    AvroAccepts new (sampleMessage old) ↔ AvroWidens old new := by
  unfold AvroAccepts AvroWidens sampleMessage MessageData.trimmed
  cases hnew : avroKind (avroType new) with
  | record => simpa using sampleValue_record
  | string => simpa using isQuoted_sampleText _
  | number => simp
  | boolean => simpa using sampleText_eq_boolean _
  | null => simpa using sampleText_eq_null _
  | other => simp

/-- An Avro schema accepts all that another accepts where it is wider. -/
theorem avroWidens_iff {old new : JsonObject} : AvroWidens old new ↔
    ∀ message, message.data ≠ [] → AvroAccepts old message →
      AvroAccepts new message := by
  constructor
  · rintro (hother | ⟨hkind, hrequired⟩) message _ haccepts
    · unfold AvroAccepts
      rw [hother]
      trivial
    · unfold AvroAccepts at *
      rw [hkind] at haccepts
      cases hcase : avroKind (avroType new) with
      | record =>
        rw [hcase] at haccepts
        obtain ⟨record, hrecord, hfields⟩ := haccepts
        exact ⟨record, hrecord, fun name hname =>
          hfields name (hrequired hcase hname)⟩
      | _ =>
        rw [hcase] at haccepts
        exact haccepts
  · intro haccepts
    have hself : AvroWidens old old :=
      Or.inr ⟨rfl, fun _ => List.Subset.refl _⟩
    refine accepts_sampleMessage.mp (haccepts (sampleMessage old) ?_
      (accepts_sampleMessage.mpr hself))
    change sampleText (avroKind (avroType old)) ≠ []
    cases avroKind (avroType old) <;> decide

open DefaultValidator

/-- The formats whose messages are validated. -/
inductive DataFormat where
  | json
  | avro
deriving DecidableEq

def DataFormat.format : DataFormat → SchemaFormat
  | .json => .json
  | .avro => .avro

def CompatibilityMode.isTransitive : CompatibilityMode → Bool
  | .backwardTransitive | .forwardTransitive | .fullTransitive => true
  | _ => false

/-- What a mode asks of an old and a new definition, where `reads` says that
one is read by another. -/
def CompatibilityMode.Demands (mode : CompatibilityMode)
    (reads : Bytes → Bytes → Prop) (old new : Bytes) : Prop :=
  match mode with
  | .backward | .backwardTransitive => reads old new
  | .forward | .forwardTransitive => reads new old
  | .full | .fullTransitive => reads old new ∧ reads new old
  | .none | .other _ => True

variable (parsing : Parsing) (format : DataFormat)

/-- Every message that is accepted under one definition is accepted under
another. -/
def ReadBy (writer reader : Bytes) : Prop :=
  ∀ message, validateData parsing.json format.format writer message = none →
      validateData parsing.json format.format reader message = none

/-- The definition of the reader is wider. -/
def WiderIn (writer reader : Bytes) : Prop :=
  ∀ old ∈ parsing.map? writer, ∀ new ∈ parsing.map? reader,
    match format with
    | .json => Widens old new
    | .avro => AvroWidens old new

namespace SchemaRegistry

variable (fingerprint : Bytes → Bytes) (subject : Bytes)

def request (definition : Bytes) : RegisterSchemaRequest :=
  ⟨subject, format.format, definition⟩

/-- A registration of a definition for the subject. -/
def evolve (registry : SchemaRegistry) (definition : Bytes) : SchemaRegistry :=
  (registry.registerSchema (some (defaultValidator parsing)) fingerprint
    (request format subject definition)).1

/-- The versions that a mode compares a new one with: the latest, or every
live one. -/
def Compared (registry : SchemaRegistry) (schema : Schema) : Prop :=
  ∃ version, registry.version? subject version = some schema ∧
    ((registry.compatibility subject).isTransitive = true ∨
      registry.subjectLatest.find? subject = some version)

/-- If the definition becomes a new version, then what the mode asks of it
holds against the versions before. -/
def Evolves (reads : Bytes → Bytes → Prop) (registry : SchemaRegistry)
    (definition : Bytes) : Prop :=
  registry.decision (some (defaultValidator parsing)) fingerprint
      (request format subject definition) = .fresh →
    ∀ schema, registry.Compared subject schema →
      (registry.compatibility subject).Demands reads schema.definition definition

/-- A registry in which the subject has a mode and no versions. -/
def startOf (mode : CompatibilityMode) : SchemaRegistry :=
  { new with
    subjectCompatibility :=
      (∅ : OrderedMap Bytes CompatibilityMode).insert subject mode }

end SchemaRegistry

section

variable {parsing} {format} {writer reader definition : Bytes}
  {schema : JsonObject}

theorem validateData_json (hschema : parsing.map? definition = some schema)
    (message : MessageData) :
    validateData parsing.json (DataFormat.json).format definition message = none ↔
      message.data ≠ [] ∧ ∃ value, message.value = some value ∧
        validateJSONValue schema value = none := by
  have hparse : (parsing.json definition).bind Json.map? = some schema :=
    hschema
  unfold validateData
  by_cases hempty : message.data = []
  · simp [hempty]
  · simp only [hempty, DataFormat.format, hparse, validateJSONData]
    cases message.value <;> simp [hempty]

theorem validateData_avro (hschema : parsing.map? definition = some schema)
    (message : MessageData) :
    validateData parsing.json (DataFormat.avro).format definition message = none ↔
      message.data ≠ [] ∧ AvroAccepts schema message := by
  have hparse : (parsing.json definition).bind Json.map? = some schema :=
    hschema
  unfold validateData
  by_cases hempty : message.data = []
  · simp [hempty]
  · simp [hempty, DataFormat.format, hparse, validateAvroData_eq_none]

/-- A message that is decoded to a value. -/
def MessageData.ofValue (value : Json) : MessageData where
  data := textBytes " "
  value := some value
  number := value.kind = .number
  numeric := by simp +contextual

/-- Definitions that can be decoded are read by wider ones and no others. -/
theorem readBy_iff_widerIn {old new : JsonObject}
    (hold : parsing.map? writer = some old)
    (hnew : parsing.map? reader = some new) :
    ReadBy parsing format writer reader ↔ WiderIn parsing format writer reader := by
  have hwider : WiderIn parsing format writer reader ↔
      match format with
      | .json => Widens old new
      | .avro => AvroWidens old new := by
    simp [WiderIn, hold, hnew]
  rw [hwider]
  cases format with
  | json =>
    simp only [ReadBy, validateData_json hold, validateData_json hnew, widens_iff]
    constructor
    · intro hread value hvalue
      obtain ⟨-, other, hother, hvalid⟩ :=
        hread (.ofValue value) ⟨cons_ne_nil _ _, value, rfl, hvalue⟩
      obtain rfl := Option.some.inj hother
      exact hvalid
    · rintro hwidens message ⟨hempty, value, hvalue, hvalid⟩
      exact ⟨hempty, value, hvalue, hwidens value hvalid⟩
  | avro =>
    simp only [ReadBy, validateData_avro hold, validateData_avro hnew, avroWidens_iff]
    constructor
    · intro hread message hempty haccepts
      exact (hread message ⟨hempty, haccepts⟩).2
    · rintro hwidens message ⟨hempty, haccepts⟩
      exact ⟨hempty, hwidens message hempty haccepts⟩

theorem CompatibilityMode.demands_congr {mode : CompatibilityMode}
    {reads wider : Bytes → Bytes → Prop} {old new : Bytes}
    (hbackward : reads old new ↔ wider old new)
    (hforward : reads new old ↔ wider new old) :
    mode.Demands reads old new ↔ mode.Demands wider old new := by
  cases mode with
  | none | other name => exact Iff.rfl
  | backward | backwardTransitive => exact hbackward
  | forward | forwardTransitive => exact hforward
  | full | fullTransitive => exact and_congr hbackward hforward

theorem map?_of_validate (hvalid : validate parsing format.format definition = true) :
    ∃ schema, parsing.map? definition = some schema := by
  unfold validate at hvalid
  split_ifs at hvalid
  cases format with
  | json => exact Option.isSome_iff_exists.mp hvalid
  | avro =>
    cases hmap : parsing.map? definition with
    | none => simp [DataFormat.format, validateAvro, hmap] at hvalid
    | some schema => exact ⟨schema, rfl⟩

end

namespace SchemaRegistry

variable {parsing} {format} {fingerprint : Bytes → Bytes} {subject : Bytes}
  {registry : SchemaRegistry} {definition : Bytes}

/-- The versions of the subject have valid definitions. -/
def Valid (parsing : Parsing) (format : DataFormat) (subject : Bytes)
    (registry : SchemaRegistry) : Prop :=
  ∀ version schema, registry.version? subject version = some schema →
    validate parsing format.format schema.definition = true

theorem valid_startOf (mode : CompatibilityMode) :
    (startOf subject mode).Valid parsing format subject := by
  intro version schema hschema
  nomatch hschema

theorem validate_of_fresh
    (hfresh : registry.decision (some (defaultValidator parsing)) fingerprint
      (request format subject definition) = .fresh) :
    validate parsing format.format definition = true := by
  by_contra hinvalid
  have hrefused : (some (defaultValidator parsing)).any (fun validator =>
      !validator.validate (request format subject definition).format
        (request format subject definition).definition) = true := by
    simpa [defaultValidator, request] using hinvalid
  unfold decision at hfresh
  split_ifs at hfresh

theorem Valid.evolve (hvalid : registry.Valid parsing format subject)
    (definition : Bytes) :
    (registry.evolve parsing format fingerprint subject definition).Valid
      parsing format subject := by
  unfold SchemaRegistry.evolve registerSchema
  cases hdecision : registry.decision (some (defaultValidator parsing))
      fingerprint (request format subject definition) with
  | refused error | known id => exact hvalid
  | fresh =>
    intro version schema hschema
    rw [version?_store] at hschema
    split_ifs at hschema with hnew
    · obtain rfl := Option.some.inj hschema
      exact validate_of_fresh hdecision
    · exact hvalid version schema hschema

/-- A new version is read as its mode asks where it is wider. -/
theorem evolves_iff (hvalid : registry.Valid parsing format subject)
    (definition : Bytes) :
    Evolves parsing format fingerprint subject (ReadBy parsing format)
        registry definition ↔
      Evolves parsing format fingerprint subject (WiderIn parsing format)
        registry definition := by
  refine forall_congr' fun hfresh => forall₂_congr fun schema hcompared => ?_
  obtain ⟨version, hversion, -⟩ := hcompared
  obtain ⟨old, hold⟩ := map?_of_validate (hvalid version schema hversion)
  obtain ⟨new, hnew⟩ := map?_of_validate (validate_of_fresh hfresh)
  exact CompatibilityMode.demands_congr (readBy_iff_widerIn hold hnew)
    (readBy_iff_widerIn hnew hold)

/-- Over a run of registrations of a subject under one mode, every new version
reads the data of those before, or has its data read by them, as the mode asks,
if and only if every new version is wider or narrower in the same way. -/
theorem readable_iff_wider (parsing : Parsing) (format : DataFormat)
    (fingerprint : Bytes → Bytes) (subject : Bytes)
    (mode : CompatibilityMode) (definitions : List Bytes) :
    AllAllowed (evolve parsing format fingerprint subject)
        (Evolves parsing format fingerprint subject (ReadBy parsing format))
        (startOf subject mode) definitions ↔
      AllAllowed (evolve parsing format fingerprint subject)
        (Evolves parsing format fingerprint subject (WiderIn parsing format))
        (startOf subject mode) definitions :=
  AllAllowed.congr (fun _ definition hvalid => evolves_iff hvalid definition)
    (AllAllowed.of_invariant (fun _ definition hvalid =>
      hvalid.evolve definition) (valid_startOf mode) definitions)

/-- Two definitions and what they are decoded to. -/
def sampleParsing : Parsing where
  json text :=
    if text = textBytes "\x7b\x7d" then some (.object [])
    else if text = textBytes "\x7b\"required\":[\"id\"]\x7d" then
      some (.object [(textBytes "required", .array [.string (textBytes "id")])])
    else none
  protobuf _ := false

/-- A backward compatible version requires a field that the data of the first
version may lack. -/
theorem not_readable_required :
    ¬ AllAllowed (evolve sampleParsing .json id (textBytes "orders"))
        (Evolves sampleParsing .json id (textBytes "orders")
          (ReadBy sampleParsing .json))
        (startOf (textBytes "orders") .backward)
        [textBytes "\x7b\x7d", textBytes "\x7b\"required\":[\"id\"]\x7d"] := by
  rintro ⟨-, hsecond, -⟩
  have hread := hsecond (by decide +kernel)
    ⟨2, textBytes "orders", 1, .json, textBytes "\x7b\x7d"⟩
    ⟨1, by decide +kernel, Or.inr (by decide +kernel)⟩
    (.ofValue (.object [])) rfl
  nomatch hread

end SchemaRegistry

end Streambus.Schemas
