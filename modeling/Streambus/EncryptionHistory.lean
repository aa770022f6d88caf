/-
Encryption at rest.  A key manager has a master key, which it keeps in a file,
and data keys encrypted under it, which it keeps in memory.  Within one service
every data key stays available, and so does everything encrypted with it; a
new service starts without the data keys of the one before.
-/
import Streambus.GuardedRun
import Streambus.OrderedMap
import Streambus.TextFormat

namespace Streambus.Security

/-- A cipher that opens what was sealed with the key and the nonce, and
nothing else. -/
structure AuthenticatedCipher where
  sealText : Bytes → Bytes → Bytes → Bytes
  openText : Bytes → Bytes → Bytes → Option Bytes
  openText_eq_some : ∀ key nonce text plaintext,
    openText key nonce text = some plaintext ↔ text = sealText key nonce plaintext

structure EncryptionConfig where
  enabled : Bool
  masterKeyPath : Bytes

structure MasterKey where
  id : Bytes
  key : Bytes
deriving DecidableEq

/-- The key is encrypted under the master key. -/
structure DataEncryptionKey where
  id : Bytes
  key : Bytes
deriving DecidableEq

structure EncryptedData where
  keyId : Bytes
  nonce : Bytes
  data : Bytes
deriving DecidableEq

structure KeyManager where
  masterKey : Option MasterKey
  dataKeys : OrderedMap Bytes DataEncryptionKey
  activeKeyId : Bytes
deriving DecidableEq

/-- What is at the path of the master key. -/
inductive KeyFile
  | missing
  | garbage
  | holds (masterKey : MasterKey)
deriving DecidableEq

inductive EncryptionError
  | randomFailed
  | saveFailed
  | badKey
  | noActiveKey
  | activeKeyNotFound
  | keyNotFound (keyId : Bytes)
  | decryptFailed
deriving DecidableEq

/-- The lengths a cipher takes keys of. -/
def newCipher (key : Bytes) : Except EncryptionError Bytes :=
  if key.length ∈ [16, 24, 32] then .ok key else .error .badKey

def nonceSize : Nat := 12

def hexDigit (digit : Nat) : UInt8 :=
  UInt8.ofNat (if digit < 10 then 48 + digit else 87 + digit)

def formatHex (bytes : Bytes) : Bytes :=
  bytes.flatMap fun byte =>
    [hexDigit (byte.toNat / 16), hexDigit (byte.toNat % 16)]

def generateKeyId (seed : Bytes) : Bytes := textBytes "key-" ++ formatHex seed

/-- The random bytes of a new data key; reading any of them may fail. -/
structure DataKeyDraw where
  key : Bytes
  nonce : Bytes
  seed : Bytes
deriving DecidableEq

structure MasterKeyDraw where
  key : Bytes
  seed : Bytes
deriving DecidableEq

/-- What happens while a service starts.  A master key that could not be saved
leaves something in its file. -/
structure StartUp where
  readFails : Bool
  masterKey : Option MasterKeyDraw
  saveFails : Option KeyFile
  dataKey : Option DataKeyDraw
deriving DecidableEq

namespace KeyManager

variable (gcm : AuthenticatedCipher) (config : EncryptionConfig)
  (km : KeyManager)

def encryptWithMasterKey (nonce plaintext : Bytes) :
    Except EncryptionError Bytes := do
  let masterKey ← (km.masterKey.map Except.ok).getD (.error .badKey)
  let key ← newCipher masterKey.key
  return nonce ++ gcm.sealText key nonce plaintext

def decryptWithMasterKey (ciphertext : Bytes) : Except EncryptionError Bytes := do
  let masterKey ← (km.masterKey.map Except.ok).getD (.error .badKey)
  let key ← newCipher masterKey.key
  if ciphertext.length < nonceSize then throw .decryptFailed
  match gcm.openText key (ciphertext.take nonceSize) (ciphertext.drop nonceSize) with
  | none => throw .decryptFailed
  | some plaintext => return plaintext

def rotateDataKey (draw : Option DataKeyDraw) : Except EncryptionError KeyManager :=
  match draw with
  | none => .error .randomFailed
  | some draw => do
      let encryptedKey ← km.encryptWithMasterKey gcm draw.nonce draw.key
      let keyId := generateKeyId draw.seed
      return { km with
        dataKeys := km.dataKeys.insert keyId ⟨keyId, encryptedKey⟩
        activeKeyId := keyId }

def loadMasterKey (file : KeyFile) (readFails : Bool) : Option MasterKey :=
  match file with
  | .holds masterKey => if readFails then none else some masterKey
  | _ => none

/-- A key that cannot be loaded is replaced. -/
def loadOrGenerateMasterKey (file : KeyFile) (start : StartUp) :
    KeyFile × Except EncryptionError MasterKey :=
  let loaded :=
    if config.masterKeyPath ≠ [] then loadMasterKey file start.readFails
    else none
  match loaded with
  | some masterKey => (file, .ok masterKey)
  | none =>
    match start.masterKey with
    | none => (file, .error .randomFailed)
    | some draw =>
      let masterKey := ⟨generateKeyId draw.seed, draw.key⟩
      if config.masterKeyPath = [] then (file, .ok masterKey)
      else match start.saveFails with
      | some left => (left, .error .saveFailed)
      | none => (.holds masterKey, .ok masterKey)

/-- Every start makes a new data key, and there are no others. -/
def newKeyManager (file : KeyFile) (start : StartUp) :
    KeyFile × Except EncryptionError KeyManager :=
  if ¬ config.enabled then (file, .ok ⟨none, ∅, []⟩)
  else
    match loadOrGenerateMasterKey config file start with
    | (file, .error err) => (file, .error err)
    | (file, .ok masterKey) =>
      (file, rotateDataKey gcm ⟨some masterKey, ∅, []⟩ start.dataKey)

def getActiveKey : Except EncryptionError (Bytes × Bytes) :=
  if km.activeKeyId = [] then .error .noActiveKey
  else match km.dataKeys.find? km.activeKeyId with
  | none => .error .activeKeyNotFound
  | some dataKey => do
      let key ← km.decryptWithMasterKey gcm dataKey.key
      return (key, dataKey.id)

def getKey (keyId : Bytes) : Except EncryptionError Bytes :=
  match km.dataKeys.find? keyId with
  | none => .error (.keyNotFound keyId)
  | some dataKey => km.decryptWithMasterKey gcm dataKey.key

def encrypt (plaintext : Bytes) (nonce : Option Bytes) :
    Except EncryptionError EncryptedData :=
  if ¬ config.enabled then .ok ⟨[], [], plaintext⟩
  else do
    let (key, keyId) ← km.getActiveKey gcm
    let key ← newCipher key
    match nonce with
    | none => throw .randomFailed
    | some nonce => return ⟨keyId, nonce, gcm.sealText key nonce plaintext⟩

def decrypt (encrypted : EncryptedData) : Except EncryptionError Bytes :=
  if ¬ config.enabled ∨ encrypted.keyId = [] then .ok encrypted.data
  else do
    let key ← km.getKey gcm encrypted.keyId
    let key ← newCipher key
    match gcm.openText key encrypted.nonce encrypted.data with
    | none => throw .decryptFailed
    | some plaintext => return plaintext

end KeyManager

/-- The file of the master key, the service if one is running, and what was
encrypted, with its plaintext. -/
structure EncryptionHistory where
  file : KeyFile
  service : Option KeyManager
  issued : List (EncryptedData × Bytes)
deriving DecidableEq

inductive EncryptionOp
  | encrypt (plaintext : Bytes) (nonce : Option Bytes)
  | rotate (draw : Option DataKeyDraw)
  | recreate (start : StartUp)

namespace EncryptionHistory

variable (gcm : AuthenticatedCipher) (config : EncryptionConfig)
  (history : EncryptionHistory)

def encrypt (plaintext : Bytes) (nonce : Option Bytes) : EncryptionHistory :=
  match history.service with
  | none => history
  | some km =>
    match km.encrypt gcm config plaintext nonce with
    | .error _ => history
    | .ok data =>
      { history with issued := (data, plaintext) :: history.issued }

/-- Keys rotate only while encryption is enabled. -/
def rotate (draw : Option DataKeyDraw) : EncryptionHistory :=
  match history.service with
  | none => history
  | some km =>
    if ¬ config.enabled then history
    else match km.rotateDataKey gcm draw with
    | .error _ => history
    | .ok km => { history with service := some km }

def recreate (start : StartUp) : EncryptionHistory :=
  match KeyManager.newKeyManager gcm config history.file start with
  | (file, .error _) => { history with file, service := none }
  | (file, .ok km) => { history with file, service := some km }

def step : EncryptionOp → EncryptionHistory
  | .encrypt plaintext nonce => history.encrypt gcm config plaintext nonce
  | .rotate draw => history.rotate gcm config draw
  | .recreate start => history.recreate gcm config start

/-- Everything that was encrypted decrypts to its plaintext. -/
def Readable : Prop :=
  ∀ km, history.service = some km → ∀ entry ∈ history.issued,
    km.decrypt gcm config entry.1 = .ok entry.2
deriving Decidable

/-- A data key gets an ID that no other one has. -/
def Unique : EncryptionOp → Prop
  | .rotate (some draw) => ∀ km, history.service = some km →
      km.dataKeys.find? (generateKeyId draw.seed) = none
  | _ => True

/-- A service is replaced only before it has encrypted anything, or if it
encrypts nothing. -/
def Retained : EncryptionOp → Prop
  | .recreate _ => config.enabled = true → history.issued = []
  | _ => True

instance (op : EncryptionOp) : Decidable (history.Unique op) := by
  cases op with
  | rotate draw => cases draw <;> unfold Unique <;> infer_instance
  | _ => exact isTrue trivial

instance (op : EncryptionOp) : Decidable (history.Retained config op) := by
  cases op <;> unfold Retained <;> infer_instance

end EncryptionHistory

theorem bind_eq_ok {ε α β : Type} {first : Except ε α}
    {rest : α → Except ε β} {result : β} :
    first >>= rest = .ok result ↔
      ∃ value, first = .ok value ∧ rest value = .ok result := by
  cases first with
  | error err =>
    refine ⟨nofun, ?_⟩
    rintro ⟨value, hvalue, -⟩
    nomatch hvalue
  | ok value =>
    refine ⟨fun hrest => ⟨value, rfl, hrest⟩, ?_⟩
    rintro ⟨other, hother, hrest⟩
    injection hother with hother
    subst hother
    exact hrest

namespace KeyManager

variable {gcm : AuthenticatedCipher} {config : EncryptionConfig}
  {km after : KeyManager}

/-- Data keys are found under their own IDs. -/
def Named (km : KeyManager) : Prop :=
  ∀ keyId dataKey, km.dataKeys.find? keyId = some dataKey → dataKey.id = keyId

variable {draw : Option DataKeyDraw}

theorem rotateDataKey_ok (hok : km.rotateDataKey gcm draw = .ok after) :
    ∃ random encryptedKey, draw = some random ∧
      after = { km with
        dataKeys := km.dataKeys.insert (generateKeyId random.seed)
          ⟨generateKeyId random.seed, encryptedKey⟩
        activeKeyId := generateKeyId random.seed } := by
  cases draw with
  | none => nomatch hok
  | some random =>
    obtain ⟨encryptedKey, -, hafter⟩ := bind_eq_ok.mp hok
    injection hafter with hafter
    exact ⟨random, encryptedKey, rfl, hafter.symm⟩

theorem named_rotateDataKey (hnamed : km.Named)
    (hok : km.rotateDataKey gcm draw = .ok after) : after.Named := by
  obtain ⟨random, encryptedKey, -, rfl⟩ := rotateDataKey_ok hok
  intro keyId dataKey hfind
  rw [OrderedMap.find?_insert] at hfind
  split at hfind
  next heq =>
    injection hfind with hfind
    rw [← hfind, ← heq]
  · exact hnamed keyId dataKey hfind

variable {data : EncryptedData} {plaintext : Bytes}

/-- A new data key takes none of the others away. -/
theorem decrypt_rotateDataKey (hok : km.rotateDataKey gcm draw = .ok after)
    (hunique : ∀ random, draw = some random →
      km.dataKeys.find? (generateKeyId random.seed) = none)
    (hdecrypt : km.decrypt gcm config data = .ok plaintext) :
    after.decrypt gcm config data = .ok plaintext := by
  obtain ⟨random, encryptedKey, hdraw, rfl⟩ := rotateDataKey_ok hok
  unfold decrypt at hdecrypt ⊢
  split_ifs at hdecrypt ⊢ with hplain
  · exact hdecrypt
  · have hne : generateKeyId random.seed ≠ data.keyId := by
      intro heq
      have hnone := hunique random hdraw
      rw [heq] at hnone
      unfold getKey at hdecrypt
      rw [hnone] at hdecrypt
      nomatch hdecrypt
    have hkey : getKey gcm { km with
        dataKeys := km.dataKeys.insert (generateKeyId random.seed)
          ⟨generateKeyId random.seed, encryptedKey⟩
        activeKeyId := generateKeyId random.seed } data.keyId =
        km.getKey gcm data.keyId := by
      unfold getKey
      rw [OrderedMap.find?_insert_of_ne _ hne]
      rfl
    rw [hkey]
    exact hdecrypt

/-- The active key is found under the ID it is returned with. -/
theorem getKey_of_getActiveKey {key keyId : Bytes} (hnamed : km.Named)
    (hactive : km.getActiveKey gcm = .ok (key, keyId)) :
    km.getKey gcm keyId = .ok key ∧ keyId ≠ [] := by
  unfold getActiveKey at hactive
  split_ifs at hactive with hnone
  cases hfind : km.dataKeys.find? km.activeKeyId with
  | none =>
    rw [hfind] at hactive
    nomatch hactive
  | some dataKey =>
    rw [hfind] at hactive
    obtain ⟨opened, hopened, hpair⟩ := bind_eq_ok.mp hactive
    injection hpair with hpair
    obtain ⟨rfl, rfl⟩ := Prod.mk.inj hpair
    have hid := hnamed _ _ hfind
    rw [hid]
    refine ⟨?_, hnone⟩
    unfold getKey
    rw [hfind]
    exact hopened

theorem decrypt_encrypt {nonce : Option Bytes} (hnamed : km.Named)
    (hok : km.encrypt gcm config plaintext nonce = .ok data) :
    km.decrypt gcm config data = .ok plaintext := by
  unfold encrypt at hok
  split_ifs at hok with henabled
  · obtain ⟨⟨key, keyId⟩, hactive, hrest⟩ := bind_eq_ok.mp hok
    obtain ⟨cipherKey, hcipher, hsealed⟩ := bind_eq_ok.mp hrest
    cases nonce with
    | none => nomatch hsealed
    | some nonce =>
      injection hsealed with hsealed
      obtain ⟨hkey, hne⟩ := getKey_of_getActiveKey hnamed hactive
      subst hsealed
      unfold decrypt
      have hopen := (gcm.openText_eq_some cipherKey nonce _ plaintext).mpr rfl
      rw [if_neg (by simp [henabled, hne])]
      exact bind_eq_ok.mpr ⟨key, hkey, bind_eq_ok.mpr
        ⟨cipherKey, hcipher, by simp only [hopen]; rfl⟩⟩
  · injection hok with hok
    subst hok
    exact if_pos (Or.inr rfl)

theorem named_newKeyManager {file kept : KeyFile} {start : StartUp}
    (hnew : newKeyManager gcm config file start = (kept, .ok km)) :
    km.Named := by
  have hempty : ∀ masterKey : Option MasterKey,
      Named ⟨masterKey, ∅, []⟩ := fun _ _ _ hfind => nomatch hfind
  unfold newKeyManager at hnew
  split_ifs at hnew
  · split at hnew
    · nomatch hnew
    · exact named_rotateDataKey (hempty _) (Prod.mk.inj hnew).2
  · injection (Prod.mk.inj hnew).2 with hkm
    rw [← hkm]
    exact hempty none

theorem decrypt_disabled (hdisabled : config.enabled = false)
    (data : EncryptedData) : km.decrypt gcm config data = .ok data.data :=
  if_pos (Or.inl (by simp [hdisabled]))

end KeyManager

namespace EncryptionHistory

variable {gcm : AuthenticatedCipher} {config : EncryptionConfig}
  {history : EncryptionHistory}

/-- What was encrypted can be read, and is plain text if encryption is off. -/
structure Kept (gcm : AuthenticatedCipher) (config : EncryptionConfig)
    (history : EncryptionHistory) : Prop where
  named : ∀ km, history.service = some km → km.Named
  readable : history.Readable gcm config
  plain : config.enabled = false → ∀ entry ∈ history.issued, entry.1.data = entry.2

section

variable (hkept : history.Kept gcm config)

include hkept

theorem kept_encrypt (plaintext : Bytes) (nonce : Option Bytes) :
    (history.encrypt gcm config plaintext nonce).Kept gcm config := by
  unfold encrypt
  split
  · exact hkept
  next km hservice =>
    split
    · exact hkept
    · rename_i data hok
      have hdata := KeyManager.decrypt_encrypt (hkept.named km hservice) hok
      refine ⟨hkept.named, ?_, ?_⟩
      · intro other hother entry hentry
        rcases List.mem_cons.mp hentry with rfl | hold
        · rw [Option.some.inj (hother.symm.trans hservice)]
          exact hdata
        · exact hkept.readable other hother entry hold
      · intro hdisabled entry hentry
        rcases List.mem_cons.mp hentry with rfl | hold
        · rw [KeyManager.decrypt_disabled hdisabled] at hdata
          injection hdata
        · exact hkept.plain hdisabled entry hold

theorem kept_rotate {draw : Option DataKeyDraw}
    (hunique : history.Unique (.rotate draw)) :
    (history.rotate gcm config draw).Kept gcm config := by
  unfold rotate
  split
  · exact hkept
  next km hservice =>
    split_ifs
    · split
      · exact hkept
      · rename_i after hok
        have hfresh : ∀ random, draw = some random →
            km.dataKeys.find? (generateKeyId random.seed) = none := by
          rintro random rfl
          exact hunique km hservice
        refine ⟨?_, ?_, hkept.plain⟩
        · intro other hother
          rw [← Option.some.inj hother]
          exact KeyManager.named_rotateDataKey (hkept.named km hservice) hok
        · intro other hother entry hentry
          rw [← Option.some.inj hother]
          exact KeyManager.decrypt_rotateDataKey hok hfresh
            (hkept.readable km hservice entry hentry)
    · exact hkept

theorem kept_recreate {start : StartUp}
    (hretained : history.Retained config (.recreate start)) :
    (history.recreate gcm config start).Kept gcm config := by
  unfold recreate
  split
  · exact ⟨nofun, nofun, hkept.plain⟩
  next file km hnew =>
    refine ⟨?_, ?_, hkept.plain⟩
    · intro other hother
      rw [← Option.some.inj hother]
      exact KeyManager.named_newKeyManager hnew
    · intro other hother entry hentry
      cases henabled : config.enabled with
      | true =>
        rw [hretained henabled] at hentry
        nomatch hentry
      | false =>
        rw [KeyManager.decrypt_disabled henabled, hkept.plain henabled entry hentry]

end

theorem kept_step {op : EncryptionOp} (hkept : history.Kept gcm config)
    (hop : history.Unique op ∧ history.Retained config op) :
    (history.step gcm config op).Kept gcm config := by
  cases op with
  | encrypt plaintext nonce => exact kept_encrypt hkept plaintext nonce
  | rotate draw => exact kept_rotate hkept hop.1
  | recreate start => exact kept_recreate hkept hop.2

/-- Everything encrypted can be decrypted after every run in which data keys
have their own IDs and no service that has encrypted something is replaced. -/
theorem readable_of_retained (gcm : AuthenticatedCipher)
    (config : EncryptionConfig) (file : KeyFile) (ops : List EncryptionOp)
    (hunique : AllAllowed (step gcm config) Unique ⟨file, none, []⟩ ops)
    (hretained : AllAllowed (step gcm config) (Retained config)
      ⟨file, none, []⟩ ops) :
    (runSteps (step gcm config) ⟨file, none, []⟩ ops).Readable gcm config :=
  ((hunique.and hretained).invariant (Kept gcm config)
    (fun _ _ => kept_step) ⟨nofun, nofun, fun _ _ hentry => nomatch hentry⟩ ).readable

/-- A cipher that writes the key and the nonce before the text. -/
def labelCipher : AuthenticatedCipher where
  sealText key nonce plaintext := key ++ nonce ++ plaintext
  openText key nonce text :=
    if (key ++ nonce).isPrefixOf text then
      some (text.drop (key ++ nonce).length)
    else none
  openText_eq_some key nonce text plaintext := by
    constructor
    · intro hopen
      split_ifs at hopen with hprefix
      obtain ⟨rest, rfl⟩ := List.isPrefixOf_iff_prefix.mp hprefix
      rw [List.drop_left] at hopen
      rw [Option.some.inj hopen]
    · rintro rfl
      rw [if_pos (List.isPrefixOf_iff_prefix.mpr (List.prefix_append _ _)),
        List.drop_left]

def onDisk : EncryptionConfig := ⟨true, textBytes "master.key"⟩

def startWith (byte : UInt8) : StartUp where
  readFails := false
  masterKey := some ⟨List.replicate 16 byte, [byte]⟩
  saveFails := none
  dataKey := some ⟨List.replicate 16 byte, List.replicate 12 byte, [byte]⟩

def rotation : List EncryptionOp :=
  [.recreate (startWith 1), .recreate (startWith 2),
    .encrypt [7] (some [1]), .rotate none,
    .rotate (some ⟨List.replicate 16 3, List.replicate 12 4, [5]⟩),
    .encrypt [8, 9] (some [2]), .encrypt [] none]

theorem readable_of_retained_rotated :
    (runSteps (step labelCipher onDisk) ⟨.missing, none, []⟩
      rotation).issued.length = 2 ∧
    (runSteps (step labelCipher onDisk) ⟨.missing, none, []⟩
      rotation).Readable labelCipher onDisk :=
  ⟨by decide +kernel, readable_of_retained labelCipher onDisk .missing
    rotation (by decide +kernel) (by decide +kernel)⟩

/-- After a restart the data key of what was encrypted before is gone, though
the master key is loaded from its file. -/
theorem not_readable_restarted :
    AllAllowed (step labelCipher onDisk) Unique ⟨.missing, none, []⟩
      [.recreate (startWith 1), .encrypt [7] (some [1]), .recreate (startWith 2)] ∧
    ¬ (runSteps (step labelCipher onDisk) ⟨.missing, none, []⟩
      [.recreate (startWith 1), .encrypt [7] (some [1]),
        .recreate (startWith 2)]).Readable labelCipher onDisk := by
  decide +kernel

end EncryptionHistory

end Streambus.Security
