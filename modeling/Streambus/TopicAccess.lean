/-
Who may do what.  The authorizer matches a principal against the entries of an
access list: an entry that denies outweighs every entry that allows, and
nothing is allowed by default.  A principal carries its groups as one text, and
a pattern looks for the name of a group anywhere in it.  The permission a
request needs follows from its type, to write for producing and to read for
fetching; both create a topic that is not there, for which nobody asks whether
the caller may.
-/
import Mathlib.Data.List.Infix
import Streambus.TopicStorage

namespace Streambus.Security

/-- A type is a name; any name may be configured for a key. -/
inductive PrincipalType
  | user
  | service
  | anonymous
  | systemInternal
  | other (name : Bytes)
deriving DecidableEq

def PrincipalType.text : PrincipalType → Bytes
  | .user => textBytes "USER"
  | .service => textBytes "SERVICE"
  | .anonymous => textBytes "ANONYMOUS"
  | .systemInternal => textBytes "SYSTEM_INTERNAL"
  | .other name => name

inductive AuthMethod
  | none
  | tls
  | mtls
  | saslPlain
  | saslScram256
  | saslScram512
  | apiKey
  | oauth
  | jwt
deriving DecidableEq

inductive Action
  | topicCreate
  | topicDelete
  | topicDescribe
  | topicAlter
  | topicWrite
  | topicRead
  | topicReadCommit
  | groupRead
  | groupDescribe
  | groupDelete
  | clusterDescribe
  | clusterAlter
  | clusterAction
  | transactionDescribe
  | transactionWrite
  | schemaRead
  | schemaWrite
  | schemaDelete
  | schemaCompat
deriving DecidableEq

inductive ResourceType
  | topic
  | consumerGroup
  | cluster
  | transaction
  | schema
deriving DecidableEq

/-- How an entry's resource name is read.  Any other kind matches nothing. -/
inductive PatternType
  | literal
  | prefixed
  | wildcard
  | unknown
deriving DecidableEq

/-- Any other permission neither allows nor denies. -/
inductive Permission
  | allow
  | deny
  | unknown
deriving DecidableEq

structure Principal where
  id : Bytes
  type : PrincipalType
  attributes : OrderedMap Bytes Bytes := ∅

structure Resource where
  type : ResourceType
  name : Bytes

structure AclEntry where
  principal : Bytes
  resourceType : ResourceType
  resourceName : Bytes
  patternType : PatternType
  action : Action
  permission : Permission

structure SecurityConfig where
  authzEnabled : Bool
  superUsers : List Bytes

def groupsKey : Bytes := textBytes "groups"

/-- A list of names as it is printed: in brackets, with blanks between. -/
def formatGroups (groups : List Bytes) : Bytes :=
  textBytes "[" ++ (textBytes " ").intercalate groups ++ textBytes "]"

/-- The attributes of a principal: the configured ones, and the groups. -/
def principalAttributes (attributes : OrderedMap Bytes Bytes)
    (groups : List Bytes) : OrderedMap Bytes Bytes :=
  if groups.length > 0 then attributes.insert groupsKey (formatGroups groups)
  else attributes

namespace Principal

variable (principal : Principal)

def isSuperUser (superUsers : List Bytes) : Bool :=
  superUsers.any fun superUser => principal.id = superUser

/-- A group is looked for in the text of all of them. -/
def hasGroup (group : Bytes) : Bool :=
  match principal.attributes.find? groupsKey with
  | none => false
  | some groups => group <:+: groups

end Principal

structure User where
  username : Bytes
  passwordHash : Bytes
  salt : Bytes
  iterations : Int
  groups : List Bytes
  attributes : OrderedMap Bytes Bytes
  enabled : Bool

structure SaslCredentials where
  username : Bytes
  password : Bytes
  mechanism : AuthMethod

inductive AuthError
  | mechanismNotAllowed
  | userNotFound
  | userDisabled
  | unsupportedMechanism
  | credentialsRejected
  | invalidApiKey
  | apiKeyDisabled
  | apiKeyExpired
  | invalidApiSecret
deriving DecidableEq

structure SaslAuthenticator where
  mechanisms : List AuthMethod
  users : OrderedMap Bytes User

/-- `verify` compares a password with what is stored for a user. -/
def SaslAuthenticator.authenticate
    (verify : AuthMethod → SaslCredentials → User → Bool)
    (authenticator : SaslAuthenticator) (credentials : SaslCredentials) :
    Except AuthError Principal :=
  if credentials.mechanism ∉ authenticator.mechanisms then
    .error .mechanismNotAllowed
  else match authenticator.users.find? credentials.username with
  | none => .error .userNotFound
  | some user =>
    if ¬ user.enabled then .error .userDisabled
    else if credentials.mechanism ∉ [.saslPlain, .saslScram256, .saslScram512] then
      .error .unsupportedMechanism
    else if ¬ verify credentials.mechanism credentials user then
      .error .credentialsRejected
    else .ok {
      id := user.username
      type := .user
      attributes := principalAttributes user.attributes user.groups }

structure ApiKey where
  secret : Bytes
  principalId : Bytes
  type : PrincipalType
  groups : List Bytes
  attributes : OrderedMap Bytes Bytes
  enabled : Bool
  expiresAt : Option Int

structure ApiKeyCredentials where
  apiKey : Bytes
  apiSecret : Bytes

structure ApiKeyAuthenticator where
  keys : OrderedMap Bytes ApiKey

def ApiKeyAuthenticator.authenticate (now : Int)
    (authenticator : ApiKeyAuthenticator) (credentials : ApiKeyCredentials) :
    Except AuthError Principal :=
  match authenticator.keys.find? credentials.apiKey with
  | none => .error .invalidApiKey
  | some key =>
    if ¬ key.enabled then .error .apiKeyDisabled
    else if key.expiresAt.any fun expiresAt => expiresAt < now then
      .error .apiKeyExpired
    else if key.secret ≠ credentials.apiSecret then
      .error .invalidApiSecret
    else .ok {
      id := key.principalId
      type := key.type
      attributes := principalAttributes key.attributes key.groups }

def groupPrefix : Bytes := textBytes "group:"

def typePrefix : Bytes := textBytes "type:"

def matchesPrincipal (principal : Principal) (pattern : Bytes) : Bool :=
  if pattern = textBytes "*" then true
  else if pattern = principal.id then true
  else if groupPrefix.isPrefixOf pattern then
    principal.hasGroup (pattern.drop groupPrefix.length)
  else if typePrefix.isPrefixOf pattern then
    principal.type.text = pattern.drop typePrefix.length
  else false

section

-- Shell patterns are matched by the file path library.
variable (glob : Bytes → Bytes → Bool)

def matchesResourceName (name pattern : Bytes) : PatternType → Bool
  | .literal => name = pattern
  | .prefixed => pattern.isPrefixOf name
  | .wildcard => glob pattern name
  | .unknown => false

def matchesEntry (principal : Principal) (action : Action)
    (resource : Resource) (entry : AclEntry) : Bool :=
  matchesPrincipal principal entry.principal && entry.resourceType = resource.type &&
    entry.action = action &&
    matchesResourceName glob resource.name entry.resourceName entry.patternType

structure AclAuthorizer where
  entries : OrderedMap Bytes AclEntry
  config : SecurityConfig

namespace AclAuthorizer

def hasEntry (authorizer : AclAuthorizer) (principal : Principal)
    (action : Action) (resource : Resource) (permission : Permission) : Bool :=
  authorizer.entries.entries.any fun entry =>
    matchesEntry glob principal action resource entry.2 &&
      entry.2.permission = permission

def authorize (authorizer : AclAuthorizer) (principal : Principal)
    (action : Action) (resource : Resource) : Bool :=
  if ¬ authorizer.config.authzEnabled then true
  else if principal.isSuperUser authorizer.config.superUsers then true
  else if principal.type.text = PrincipalType.systemInternal.text then true
  else if authorizer.hasEntry glob principal action resource .deny then false
  else authorizer.hasEntry glob principal action resource .allow

end AclAuthorizer

end

open List

/-- What is configured for a user or a key. -/
structure Account where
  id : Bytes
  type : PrincipalType
  groups : List Bytes
  attributes : OrderedMap Bytes Bytes

def User.account (user : User) : Account :=
  ⟨user.username, .user, user.groups, user.attributes⟩

def ApiKey.account (key : ApiKey) : Account :=
  ⟨key.principalId, key.type, key.groups, key.attributes⟩

/-- A principal that one of the authenticators makes for an account. -/
inductive Authenticates : Account → Principal → Prop
  | sasl (verify : AuthMethod → SaslCredentials → User → Bool)
      (authenticator : SaslAuthenticator) (credentials : SaslCredentials)
      (user : User) (principal : Principal)
      (hfind : authenticator.users.find? credentials.username = some user)
      (hok : authenticator.authenticate verify credentials = .ok principal) :
      Authenticates user.account principal
  | apiKey (now : Int) (authenticator : ApiKeyAuthenticator)
      (credentials : ApiKeyCredentials) (key : ApiKey) (principal : Principal)
      (hfind : authenticator.keys.find? credentials.apiKey = some key)
      (hok : authenticator.authenticate now credentials = .ok principal) :
      Authenticates key.account principal

namespace Account

variable (account : Account)

/-- The text in which a group of the account is looked for: that of its
groups, or an attribute of that name if it has none. -/
def groupsText : Option Bytes :=
  if account.groups = [] then account.attributes.find? groupsKey
  else some (formatGroups account.groups)

/-- The name is one of the account's groups, or nothing could be taken for
it. -/
def TellsApart (group : Bytes) : Prop :=
  group ∈ account.groups ∨ account.id ≠ groupPrefix ++ group ∧
      ∀ text, account.groupsText = some text → ¬ group <:+: text
deriving Decidable

def principal : Principal :=
  ⟨account.id, account.type, principalAttributes account.attributes account.groups⟩

end Account

theorem Authenticates.eq_principal {account : Account} {principal : Principal}
    (hauth : Authenticates account principal) :
    principal = account.principal := by
  cases hauth with
  | sasl verify authenticator credentials user principal hfind hok =>
    unfold SaslAuthenticator.authenticate at hok
    rw [hfind] at hok
    dsimp only at hok
    split_ifs at hok
    injection hok with hok
    exact hok.symm
  | apiKey now authenticator credentials key principal hfind hok =>
    unfold ApiKeyAuthenticator.authenticate at hok
    rw [hfind] at hok
    dsimp only at hok
    split_ifs at hok
    injection hok with hok
    exact hok.symm

variable {group : Bytes}

theorem infix_intercalate {separator : Bytes} {groups : List Bytes}
    (hmem : group ∈ groups) : group <:+: separator.intercalate groups := by
  induction groups with
  | nil => exact absurd hmem not_mem_nil
  | cons head tail ih =>
    cases tail with
    | nil =>
      rw [mem_singleton.mp hmem, intercalate_singleton]
    | cons next rest =>
      rw [intercalate_cons_cons]
      rcases mem_cons.mp hmem with rfl | hrest
      · exact (prefix_append _ _).isInfix.trans (prefix_append _ _).isInfix
      · exact (ih hrest).trans (suffix_append _ _).isInfix

theorem infix_formatGroups {groups : List Bytes} (hmem : group ∈ groups) :
    group <:+: formatGroups groups :=
  (infix_intercalate hmem).trans ⟨_, _, rfl⟩

namespace Account

variable {account : Account}

theorem find?_groups :
    account.principal.attributes.find? groupsKey = account.groupsText := by
  unfold principal principalAttributes groupsText
  by_cases hnil : account.groups = []
  · simp [hnil]
  · have hlength : account.groups.length > 0 :=
      length_pos_iff.mpr hnil
    simp [hnil, hlength]

theorem hasGroup_iff {group : Bytes} : account.principal.hasGroup group = true ↔
      ∃ text, account.groupsText = some text ∧ group <:+: text := by
  unfold Principal.hasGroup
  rw [find?_groups]
  cases account.groupsText with
  | none | some text => simp

theorem hasGroup_of_mem {group : Bytes} (hmem : group ∈ account.groups) :
    account.principal.hasGroup group = true := by
  have hnil : account.groups ≠ [] := ne_nil_of_mem hmem
  exact hasGroup_iff.mpr ⟨_, if_neg hnil, infix_formatGroups hmem⟩

end Account

theorem groupPrefix_ne_star (group : Bytes) :
    groupPrefix ++ group ≠ textBytes "*" := by
  intro heq
  have hlength := congrArg List.length heq
  have hprefix : groupPrefix.length = 6 := by decide
  have hstar : (textBytes "*").length = 1 := by decide
  rw [length_append] at hlength
  omega

theorem matchesPrincipal_group {principal : Principal} :
    matchesPrincipal principal (groupPrefix ++ group) = true ↔
      principal.id = groupPrefix ++ group ∨ principal.hasGroup group = true := by
  unfold matchesPrincipal
  have hprefix : groupPrefix.isPrefixOf (groupPrefix ++ group) = true :=
    List.isPrefixOf_iff_prefix.mpr (prefix_append _ _)
  rw [if_neg (groupPrefix_ne_star group), drop_left]
  by_cases hid : groupPrefix ++ group = principal.id
  · simp [hid]
  · have hne : principal.id ≠ groupPrefix ++ group := Ne.symm hid
    simp [hid, hne]

theorem matchesPrincipal_congr {first second : Principal} {pattern : Bytes}
    (hid : first.id = second.id) (htype : first.type = second.type)
    (hgroup : ∀ group, pattern = groupPrefix ++ group →
      first.hasGroup group = second.hasGroup group) :
    matchesPrincipal first pattern = matchesPrincipal second pattern := by
  unfold matchesPrincipal
  rw [hid, htype]
  by_cases hmatch : groupPrefix.isPrefixOf pattern = true
  · obtain ⟨group, rfl⟩ := List.isPrefixOf_iff_prefix.mp hmatch
    rw [drop_left, hgroup group rfl]
  · simp [hmatch]

namespace Account

variable {account : Account}

theorem matches_iff_mem_iff (group : Bytes) :
    (matchesPrincipal account.principal (groupPrefix ++ group) = true ↔
      group ∈ account.groups) ↔ account.TellsApart group := by
  rw [matchesPrincipal_group]
  by_cases hmem : group ∈ account.groups
  · simp [TellsApart, hmem, hasGroup_of_mem hmem]
  · have hid : account.principal.id = account.id := rfl
    rw [hasGroup_iff, hid]
    simp [TellsApart, hmem]

theorem TellsApart.hasGroup_eq {group : Bytes} (happart : account.TellsApart group) :
    account.principal.hasGroup group = decide (group ∈ account.groups) := by
  rcases happart with hmem | ⟨-, hnone⟩
  · rw [hasGroup_of_mem hmem, decide_eq_true hmem]
  · have hfalse : ¬ account.principal.hasGroup group = true := by
      intro hhas
      obtain ⟨text, htext, hinfix⟩ := hasGroup_iff.mp hhas
      exact hnone text htext hinfix
    have hmem : group ∉ account.groups :=
      fun hmem => hfalse (hasGroup_of_mem hmem)
    rw [decide_eq_false hmem]
    exact Bool.eq_false_iff.mpr hfalse

end Account

namespace AclAuthorizer

variable {glob : Bytes → Bytes → Bool} {authorizer : AclAuthorizer}
  {action : Action} {resource : Resource} {permission : Permission}
  {principal second : Principal} (groups : List String)

theorem hasEntry_iff :
    authorizer.hasEntry glob principal action resource permission = true ↔
      ∃ entry ∈ authorizer.entries.entries,
        matchesEntry glob principal action resource entry.2 = true ∧
          entry.2.permission = permission := by
  simp [hasEntry]

variable {first : Principal}

theorem hasEntry_congr (hmatch : ∀ entry ∈ authorizer.entries.entries,
      matchesPrincipal first entry.2.principal =
        matchesPrincipal second entry.2.principal) :
    authorizer.hasEntry glob first action resource permission =
      authorizer.hasEntry glob second action resource permission := by
  rw [Bool.eq_iff_iff, hasEntry_iff, hasEntry_iff]
  refine exists_congr fun entry => and_congr_right fun hentry => ?_
  unfold matchesEntry
  rw [hmatch entry hentry]

theorem authorize_congr (hid : first.id = second.id)
    (htype : first.type = second.type)
    (hmatch : ∀ entry ∈ authorizer.entries.entries,
      matchesPrincipal first entry.2.principal =
        matchesPrincipal second entry.2.principal) :
    authorizer.authorize glob first action resource =
      authorizer.authorize glob second action resource := by
  unfold authorize Principal.isSuperUser
  rw [hid, htype, hasEntry_congr hmatch, hasEntry_congr hmatch]

theorem authorize_iff (henabled : authorizer.config.authzEnabled = true)
    (hsuper : principal.id ∉ authorizer.config.superUsers)
    (hinternal : principal.type.text ≠ PrincipalType.systemInternal.text) :
    authorizer.authorize glob principal action resource = true ↔
      authorizer.hasEntry glob principal action resource .allow = true ∧
        ¬ authorizer.hasEntry glob principal action resource .deny = true := by
  have hnot : principal.isSuperUser authorizer.config.superUsers = false := by
    simp only [Principal.isSuperUser, any_eq_false, decide_eq_true_eq]
    intro superUser hmem heq
    exact hsuper (heq ▸ hmem)
  unfold authorize
  rw [if_neg (by simp [henabled]), if_neg (by simp [hnot]), if_neg hinternal]
  by_cases hdeny : authorizer.hasEntry glob principal action resource .deny = true
  · simp [hdeny]
  · simp [hdeny]

/-- A group pattern is matched by the members of the group, and by them only,
exactly if the account tells the name apart from its groups.  Two accounts
with one id, one type and the same groups get the same answers from an access
list whose groups both of them tell apart. -/
theorem groupAccess_iff_tellsApart (glob : Bytes → Bytes → Bool)
    (authorizer : AclAuthorizer) (action : Action) (resource : Resource)
    (first second : Account) (principal other : Principal)
    (hfirst : Authenticates first principal)
    (hsecond : Authenticates second other) :
    (∀ group, (matchesPrincipal principal (groupPrefix ++ group) = true ↔
        group ∈ first.groups) ↔ first.TellsApart group) ∧
    (first.id = second.id → first.type = second.type →
      (∀ group, group ∈ first.groups ↔ group ∈ second.groups) →
      (∀ entry ∈ authorizer.entries.entries, ∀ group,
        entry.2.principal = groupPrefix ++ group →
          first.TellsApart group ∧ second.TellsApart group) →
      authorizer.authorize glob principal action resource =
        authorizer.authorize glob other action resource) ∧
    (authorizer.config.authzEnabled = true →
      principal.id ∉ authorizer.config.superUsers →
      principal.type.text ≠ PrincipalType.systemInternal.text →
      (authorizer.authorize glob principal action resource = true ↔
        (∃ entry ∈ authorizer.entries.entries,
          matchesEntry glob principal action resource entry.2 = true ∧
            entry.2.permission = .allow) ∧
        ¬ ∃ entry ∈ authorizer.entries.entries,
          matchesEntry glob principal action resource entry.2 = true ∧
            entry.2.permission = .deny)) := by
  rw [hfirst.eq_principal, hsecond.eq_principal]
  refine ⟨Account.matches_iff_mem_iff, ?_, ?_⟩
  · intro hid htype hgroups hapart
    refine authorize_congr hid htype fun entry hentry => ?_
    refine matchesPrincipal_congr hid htype fun group hpattern => ?_
    obtain ⟨hone, htwo⟩ := hapart entry hentry group hpattern
    rw [hone.hasGroup_eq, htwo.hasGroup_eq]
    exact decide_eq_decide.mpr (hgroups group)
  · intro henabled hsuper hinternal
    rw [authorize_iff henabled hsuper hinternal, hasEntry_iff, hasEntry_iff]

def memberOf : User where
  username := textBytes "bob"
  passwordHash := []
  salt := []
  iterations := 0
  groups := groups.map textBytes
  attributes := ∅
  enabled := true

/-- One user with any password, and one group that may read a topic. -/
def directoryOf : SaslAuthenticator :=
  ⟨[.saslPlain], OrderedMap.ofEntries [(textBytes "bob", memberOf groups)]⟩

def readableBy (group : String) : AclAuthorizer where
  entries := OrderedMap.ofEntries [(textBytes "acl-1",
    { principal := groupPrefix ++ textBytes group
      resourceType := .topic
      resourceName := textBytes "payroll"
      patternType := .literal
      action := .topicRead
      permission := .allow })]
  config := ⟨true, []⟩

def payroll : Resource := ⟨.topic, textBytes "payroll"⟩

theorem authenticates_memberOf :
    Authenticates (memberOf groups).account (memberOf groups).account.principal :=
  .sasl (fun _ _ _ => true) (directoryOf groups)
    ⟨textBytes "bob", [], .saslPlain⟩ (memberOf groups) _ rfl rfl

theorem groupAccess_iff_tellsApart_reordered :
    (memberOf ["ops", "dba"]).account.TellsApart (textBytes "dba") ∧
    (readableBy "dba").authorize (fun _ _ => false)
        (memberOf ["ops", "dba"]).account.principal .topicRead payroll =
      (readableBy "dba").authorize (fun _ _ => false)
        (memberOf ["dba", "ops"]).account.principal .topicRead payroll :=
  have haccess := groupAccess_iff_tellsApart (fun _ _ => false)
    (readableBy "dba") .topicRead payroll _ _ _ _
    (authenticates_memberOf ["ops", "dba"])
    (authenticates_memberOf ["dba", "ops"])
  ⟨(haccess.1 (textBytes "dba")).mp (by decide), haccess.2.1 rfl rfl
    (by simp [memberOf, User.account, or_comm])
    (by
      intro entry hentry group hgroup
      have heq : entry.2.principal = groupPrefix ++ textBytes "dba" := by
        rw [mem_singleton.mp hentry]
      have hdba : group = textBytes "dba" :=
        append_cancel_left (hgroup.symm.trans heq)
      rw [hdba]
      decide)⟩

/-- A group whose name is a part of another's admits the other's members, and
which names are parts of the text depends on the order of the groups. -/
theorem nonmember_authorized :
    (directoryOf ["administrators"]).authenticate (fun _ _ _ => true)
        ⟨textBytes "bob", [], .saslPlain⟩ =
      .ok (memberOf ["administrators"]).account.principal ∧
    textBytes "admin" ∉ (memberOf ["administrators"]).groups ∧
    matchesPrincipal (memberOf ["administrators"]).account.principal
      (groupPrefix ++ textBytes "admin") = true ∧
    (readableBy "admin").authorize (fun _ _ => false)
      (memberOf ["administrators"]).account.principal .topicRead payroll = true ∧
    (readableBy "ops dba").authorize (fun _ _ => false)
        (memberOf ["ops", "dba"]).account.principal .topicRead payroll ≠
      (readableBy "ops dba").authorize (fun _ _ => false)
        (memberOf ["dba", "ops"]).account.principal .topicRead payroll := by
  refine ⟨rfl, ?_, ?_, ?_, ?_⟩ <;> decide

end AclAuthorizer

end Streambus.Security

namespace Streambus.Server

open Security TopicManager

structure SecurityHandler (ν : Type) where
  enabled : Bool
  authorizer : AclAuthorizer
  baseHandler : TopicManager ν

/-- Credentials are not carried by requests yet. -/
def authenticate (_ : TopicRequest) : Principal :=
  { id := textBytes "anonymous", type := .anonymous }

def topicResource (topic : Bytes) : Resource := ⟨.topic, topic⟩

def clusterResource : Resource := ⟨.cluster, textBytes "cluster"⟩

def getActionAndResource : TopicRequest → Action × Resource
  | .produce topic _ _ => (.topicWrite, topicResource topic)
  | .fetch topic _ _ => (.topicRead, topicResource topic)
  | .getOffset topic => (.topicDescribe, topicResource topic)
  | .createTopic topic _ => (.topicCreate, topicResource topic)
  | .deleteTopic topic => (.topicDelete, topicResource topic)
  | .listTopics => (.clusterDescribe, clusterResource)
  | .healthCheck => (.clusterDescribe, clusterResource)
  | .unknown => (.clusterAction, clusterResource)

/-- Requests, and changes of the access list by an administrator. -/
inductive AccessOp
  | request (request : TopicRequest)
  | addAcl (id : Bytes) (entry : AclEntry)
  | removeAcl (id : Bytes)
  | clearAcls

namespace SecurityHandler

variable {ν : Type} (glob : Bytes → Bytes → Bool) (empty : ν)
  (append : List ProtocolMessage → ν → ν) (h : SecurityHandler ν)

def hasAclEntries : Bool :=
  h.authorizer.config.authzEnabled && h.authorizer.entries.entries.length > 0

/-- Without an access list everything is allowed. -/
def checkAuthorization (principal : Principal) (action : Action)
    (resource : Resource) : Bool :=
  if ¬ h.hasAclEntries then true
  else h.authorizer.authorize glob principal action resource

/-- A request that is denied gets no answer from the base handler. -/
def handle (request : TopicRequest) : SecurityHandler ν × Option TopicResponse :=
  let passed := h.baseHandler.handle empty append request
  let (action, resource) := getActionAndResource request
  if ¬ h.enabled ∨
      h.checkAuthorization glob (authenticate request) action resource then
    ({ h with baseHandler := passed.1 }, some passed.2)
  else (h, none)

def setEntries (entries : OrderedMap Bytes AclEntry) : SecurityHandler ν :=
  { h with authorizer := { h.authorizer with entries } }

def step : AccessOp → SecurityHandler ν
  | .request request => (h.handle glob empty append request).1
  | .addAcl id entry => h.setEntries (h.authorizer.entries.insert id entry)
  | .removeAcl id => h.setEntries (h.authorizer.entries.erase id)
  | .clearAcls => h.setEntries ∅

/-- The caller of an operation may do something to a topic. -/
def allows (action : Action) (topic : Bytes) : AccessOp → Bool
  | .request request =>
    h.authorizer.authorize glob (authenticate request) action (topicResource topic)
  | _ => false

/-- Authorization is on and there is an access list. -/
def Guarded (_ : AccessOp) : Prop :=
  h.enabled = true ∧ h.hasAclEntries = true
deriving Decidable

/-- Topics come and go only for callers who may create and delete them. -/
def Authorised (op : AccessOp) : Prop :=
  ∀ topic, (h.baseHandler.topicExists topic = false →
      (h.step glob empty append op).baseHandler.topicExists topic = true →
      h.allows glob .topicCreate topic op = true) ∧
    (h.baseHandler.topicExists topic = true →
      (h.step glob empty append op).baseHandler.topicExists topic = false →
      h.allows glob .topicDelete topic op = true)

/-- A caller who may use a topic that is not there and can be made may also
create it. -/
def MayCreate (action : Action) (topic : Bytes) (op : AccessOp) : Prop :=
  h.baseHandler.topicExists topic = false →
  h.allows glob action topic op = true →
  (h.baseHandler.createTopic empty topic 1).2 = none →
  h.allows glob .topicCreate topic op = true
deriving Decidable

def Covered (op : AccessOp) : Prop :=
  match op with
  | .request (.produce topic _ _) => h.MayCreate glob empty .topicWrite topic op
  | .request (.fetch topic _ _) => h.MayCreate glob empty .topicRead topic op
  | _ => True

instance (op : AccessOp) : Decidable (h.Covered glob empty op) := by
  cases op with
  | request request => cases request <;> unfold Covered <;> infer_instance
  | _ => exact isTrue trivial

variable {h} {request : TopicRequest} {op : AccessOp} {topic : Bytes}

/-- With an access list a request reaches the base handler exactly if the
list allows what its type needs. -/
theorem step_request (hguarded : h.Guarded (.request request)) :
    (h.step glob empty append (.request request)).baseHandler =
      if h.authorizer.authorize glob (authenticate request)
          (getActionAndResource request).1 (getActionAndResource request).2
        then (h.baseHandler.handle empty append request).1
      else h.baseHandler := by
  obtain ⟨henabled, hentries⟩ := hguarded
  simp only [step, handle, checkAuthorization, henabled, hentries,
    not_true_eq_false, ↓reduceIte, false_or]
  split <;> rfl

variable {glob empty append}

/-- A step that can only make one topic is authorised if its caller may create
that topic whenever it is made. -/
theorem authorised_iff_of_makes {name : Bytes} {made : Prop} (hmakes : ∀ topic,
      (h.step glob empty append op).baseHandler.topicExists topic = true ↔
        h.baseHandler.topicExists topic = true ∨ topic = name ∧ made) :
    h.Authorised glob empty append op ↔
      (h.baseHandler.topicExists name = false → made →
        h.allows glob .topicCreate name op = true) := by
  constructor
  · intro hauth hmissing hmade
    exact (hauth name).1 hmissing ((hmakes name).mpr (Or.inr ⟨rfl, hmade⟩))
  · intro hcreate topic
    refine ⟨fun hmissing hexists => ?_, fun hexists hmissing => ?_⟩
    · rcases (hmakes topic).mp hexists with hold | ⟨rfl, hmade⟩
      · rw [hmissing] at hold
        nomatch hold
      · exact hcreate hmissing hmade
    · rw [(hmakes topic).mpr (Or.inl hexists)] at hmissing
      nomatch hmissing

theorem authorised_of_same
    (hsame : (h.step glob empty append op).baseHandler = h.baseHandler) :
    h.Authorised glob empty append op := by
  intro topic
  rw [hsame]
  refine ⟨fun hmissing hexists => ?_, fun hexists hmissing => ?_⟩ <;>
    (rw [hmissing] at hexists; nomatch hexists)

/-- A request that opens a topic needs its caller to be able to create it. -/
theorem authorised_opening_iff {action : Action}
    (hguarded : h.Guarded (.request request))
    (hneeds : getActionAndResource request = (action, topicResource topic))
    (hopens : (h.baseHandler.handle empty append request).1.topics =
      (h.baseHandler.ensureTopic empty topic).1.topics) :
    h.Authorised glob empty append (.request request) ↔
      h.MayCreate glob empty action topic (.request request) := by
  have hstep := step_request glob empty append hguarded
  rw [hneeds] at hstep
  have hmakes : ∀ other,
      (h.step glob empty append (.request request)).baseHandler.topicExists
          other = true ↔
        h.baseHandler.topicExists other = true ∨ other = topic ∧
          (h.allows glob action topic (.request request) = true ∧
            (h.baseHandler.createTopic empty topic 1).2 = none) := by
    intro other
    rw [hstep]
    by_cases hallowed : h.authorizer.authorize glob (authenticate request)
        action (topicResource topic) = true
    · have hensure := topicExists_ensureTopic empty h.baseHandler topic other
      rw [allows, hallowed]
      rw [TopicManager.topicExists, ← hopens] at hensure
      simpa [TopicManager.topicExists] using hensure
    · rw [allows]
      simp [hallowed]
  rw [authorised_iff_of_makes hmakes]
  exact imp_congr_right fun _ => and_imp

theorem authorised_createTopic {numPartitions : UInt32}
    (hguarded : h.Guarded (.request (.createTopic topic numPartitions))) :
    h.Authorised glob empty append (.request (.createTopic topic numPartitions)) := by
  have hstep := step_request glob empty append hguarded
  by_cases hallowed : h.allows glob .topicCreate topic
      (.request (.createTopic topic numPartitions)) = true
  · replace hstep := hstep.trans (if_pos hallowed)
    rw [handle_createTopic_fst] at hstep
    have hmakes := topicExists_createTopic empty h.baseHandler topic numPartitions
    rw [← hstep] at hmakes
    exact (authorised_iff_of_makes hmakes).mpr fun _ _ => hallowed
  · exact authorised_of_same (hstep.trans (if_neg hallowed))

theorem authorised_deleteTopic
    (hguarded : h.Guarded (.request (.deleteTopic topic))) :
    h.Authorised glob empty append (.request (.deleteTopic topic)) := by
  have hstep := step_request glob empty append hguarded
  by_cases hallowed : h.allows glob .topicDelete topic
      (.request (.deleteTopic topic)) = true
  · replace hstep := hstep.trans (if_pos hallowed)
    rw [handle_deleteTopic_fst] at hstep
    intro other
    rw [hstep]
    have hexists := topicExists_deleteTopic h.baseHandler topic other
    refine ⟨fun hmissing hafter => ?_, fun hbefore hafter => ?_⟩
    · rw [(hexists.mp hafter).1] at hmissing
      nomatch hmissing
    · by_cases hother : other = topic
      · rw [hother]
        exact hallowed
      · rw [hexists.mpr ⟨hbefore, hother⟩] at hafter
        nomatch hafter
  · exact authorised_of_same (hstep.trans (if_neg hallowed))

/-- A step that follows the access list is authorised exactly if it does not
make a topic in passing for a caller who may not create it. -/
theorem authorised_iff_covered (hguarded : h.Guarded op) :
    h.Authorised glob empty append op ↔ h.Covered glob empty op := by
  cases op with
  | addAcl id entry | removeAcl id =>
    exact iff_of_true (authorised_of_same rfl) trivial
  | clearAcls => exact iff_of_true (authorised_of_same rfl) trivial
  | request request =>
    cases request with
    | produce topic partitionId messages =>
      exact authorised_opening_iff hguarded rfl (topics_handleProduce _ _ _ _ _)
    | fetch topic partitionId maxBytes =>
      exact authorised_opening_iff hguarded rfl rfl
    | createTopic topic numPartitions =>
      exact iff_of_true (authorised_createTopic hguarded) trivial
    | deleteTopic topic =>
      exact iff_of_true (authorised_deleteTopic hguarded) trivial
    | getOffset topic | listTopics | healthCheck | unknown =>
      refine iff_of_true (authorised_of_same ?_) trivial
      rw [step_request glob empty append hguarded]
      exact ite_self _

/-- While authorization is on and there is an access list, every topic of a
run comes and goes for callers who may create and delete it, exactly if no
caller opens a missing topic that they may not create. -/
theorem allAuthorised_iff_allCovered (glob : Bytes → Bytes → Bool) (empty : ν)
    (append : List ProtocolMessage → ν → ν) (h : SecurityHandler ν)
    (ops : List AccessOp)
    (hguarded : AllAllowed (step glob empty append) Guarded h ops) :
    AllAllowed (step glob empty append) (Authorised glob empty append) h ops ↔
      AllAllowed (step glob empty append) (Covered glob empty) h ops :=
  hguarded.congr fun _ _ => authorised_iff_covered

/-- Anyone may do one thing with the topic `t`. -/
def aclFor (action : Action) : AclEntry where
  principal := textBytes "*"
  resourceType := .topic
  resourceName := textBytes "t"
  patternType := .literal
  action := action
  permission := .allow

def guardedBroker (actions : List Action) : SecurityHandler Nat where
  enabled := true
  authorizer :=
    { entries := OrderedMap.ofEntries (actions.mapIdx fun index action =>
        ([UInt8.ofNat index], aclFor action))
      config := ⟨true, []⟩ }
  baseHandler := TopicManager.newTopicManager 0 ∅ [textBytes "data"]

def click : ProtocolMessage := ⟨0, [], [99], ∅, 1⟩

def countMessages (messages : List ProtocolMessage) (count : Nat) : Nat :=
  count + messages.length

theorem allAuthorised_iff_allCovered_created :
    AllAllowed (step (fun _ _ => false) 0 countMessages)
      (Authorised (fun _ _ => false) 0 countMessages)
      (guardedBroker [.topicCreate, .topicWrite])
      [.request (.fetch (textBytes "t") 0 0),
        .request (.createTopic (textBytes "t") 1),
        .request (.produce (textBytes "t") 0 [click]),
        .request (.deleteTopic (textBytes "t")),
        .request (.produce (textBytes "t") 0 [click])] :=
  (allAuthorised_iff_allCovered _ _ _ _ _ (by decide +kernel)).mpr (by decide +kernel)

/-- A caller who may only write to a topic makes it by writing. -/
theorem not_authorised_produce : (guardedBroker [.topicWrite]).hasAclEntries = true ∧
    ¬ (guardedBroker [.topicWrite]).Authorised (fun _ _ => false) 0
      countMessages (.request (.produce (textBytes "t") 0 [click])) := by
  refine ⟨by decide +kernel, fun hauth => ?_⟩
  exact absurd ((hauth (textBytes "t")).1 (by decide +kernel)
    (by decide +kernel)) (by decide +kernel)

end SecurityHandler

end Streambus.Server
