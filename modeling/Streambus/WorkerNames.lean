/-
The names under which the target cluster knows the workers of replication
links.  Link, topic and partition are joined with separators, and link and
topic may hold a separator as well.
-/
import Streambus.TextFormat

namespace Streambus.Replication

open Int32 List

/-- A worker copies one partition, and partitions count from 0. -/
structure Worker where
  linkId : Bytes
  topic : Bytes
  partition : Int32
  nonneg : 0 ≤ partition.toInt
deriving DecidableEq

namespace Worker

/-- Head, link, topic and partition with a separator between them. -/
def name (head separator : Bytes) (worker : Worker) : Bytes :=
  head ++ (worker.linkId ++ separator ++ (worker.topic ++ separator ++
    formatInt worker.partition.toInt))

def replicationGroupID (worker : Worker) : Bytes :=
  worker.name (textBytes "__replication__") (textBytes "__")

def replicationTransactionID (worker : Worker) : Bytes :=
  worker.name (textBytes "replication-") (textBytes "-")

/-- Workers of the links in use never share a name. -/
def Distinct (nameOf : Worker → Bytes) (used : Set Bytes) : Prop :=
  ∀ worker other : Worker, worker.linkId ∈ used → other.linkId ∈ used →
    worker ≠ other → nameOf worker ≠ nameOf other

/-- No link in use, followed by the separator, starts another one. -/
def Separates (separator : Bytes) (used : Set Bytes) : Prop :=
  used.Pairwise fun link other => ¬ link ++ separator <+: other ++ separator

/-- The last place of a byte splits a text in one way only. -/
theorem append_cons_inj {byte : UInt8} {left left' right right' : Bytes}
    (hright : byte ∉ right) (hright' : byte ∉ right')
    (heq : left ++ byte :: right = left' ++ byte :: right') :
    left = left' ∧ right = right' := by
  rcases append_eq_append_iff.mp heq with
    ⟨between, hleft, hcons⟩ | ⟨between, hleft, hcons⟩
  · cases between with
    | nil => simp_all
    | cons first rest =>
      rw [cons_append] at hcons
      cases hcons
      simp at hright
  · cases between with
    | nil => simp_all
    | cons first rest =>
      rw [cons_append] at hcons
      cases hcons
      simp at hright'

variable {worker other : Worker} {head separator : Bytes} {byte : UInt8}

section

variable (hbyte : byte.toNat < 48 ∨ 57 < byte.toNat)

include hbyte

theorem not_mem_formatInt (worker : Worker) : byte ∉ formatInt worker.partition.toInt := by
  rw [formatInt, if_neg (not_lt.mpr worker.nonneg)]
  intro hmem
  have := formatNat_digits _ byte hmem
  omega

/-- Workers of one link have different names. -/
theorem eq_of_name_eq (hlink : worker.linkId = other.linkId)
    (hname : worker.name head (separator ++ [byte]) =
      other.name head (separator ++ [byte])) : worker = other := by
  unfold name at hname
  rw [hlink] at hname
  have hrest := append_cancel_left (append_cancel_left hname)
  rw [← append_assoc, ← append_assoc, append_assoc _ [byte],
    append_assoc _ [byte]] at hrest
  obtain ⟨htopic, hnumber⟩ := append_cons_inj (not_mem_formatInt hbyte worker)
    (not_mem_formatInt hbyte other) hrest
  have hparsed := congrArg (parseInt 32) hnumber
  rw [parseInt_formatInt (le_toInt _) (toInt_lt _),
    parseInt_formatInt (le_toInt _) (toInt_lt _)] at hparsed
  cases worker
  cases other
  simp_all [toInt_inj]

theorem distinct_name_iff (head separator : Bytes) (used : Set Bytes) :
    Distinct (name head (separator ++ [byte])) used ↔
      Separates (separator ++ [byte]) used := by
  constructor
  · -- What follows the link that starts the other one begins a topic.
    rintro hnames link hlink other hother hne ⟨rest, hrest⟩
    have hnonneg : 0 ≤ (0 : Int32).toInt := by decide
    refine hnames ⟨link, rest, 0, hnonneg⟩ ⟨other, [], 0, hnonneg⟩ hlink hother
      (fun heq => hne (congrArg linkId heq)) ?_
    simp only [name, ← hrest, append_assoc, nil_append]
  · intro hapart worker other hworker hother hne hname
    by_cases hlink : worker.linkId = other.linkId
    · exact hne (eq_of_name_eq hbyte hlink hname)
    · have hjoined := append_cancel_left hname
      rcases List.prefix_or_prefix_of_prefix ⟨_, hjoined⟩ ⟨_, rfl⟩ with
        hstarts | hstarts
      · exact hapart hworker hother hlink hstarts
      · exact hapart hother hworker (Ne.symm hlink) hstarts

end

/-- Group and transactional IDs are distinct exactly if both separators keep
the links in use apart. -/
theorem distinct_iff_separates (used : Set Bytes) :
    Distinct replicationGroupID used ∧ Distinct replicationTransactionID used ↔
      Separates (textBytes "__") used ∧ Separates (textBytes "-") used :=
  and_congr (@distinct_name_iff 95 (by decide) _ [95] used)
    (@distinct_name_iff 45 (by decide) _ [] used)

/-- A link and a topic joined in two ways. -/
theorem not_distinct_joined : (⟨textBytes "a", textBytes "b__c", 0, by decide⟩ :
        Worker).replicationGroupID =
      (⟨textBytes "a__b", textBytes "c", 0, by decide⟩ : Worker).replicationGroupID ∧
    (⟨textBytes "a", textBytes "b-c", 0, by decide⟩ :
        Worker).replicationTransactionID =
      (⟨textBytes "a-b", textBytes "c", 0, by decide⟩ :
        Worker).replicationTransactionID := by
  decide

end Worker

end Streambus.Replication
