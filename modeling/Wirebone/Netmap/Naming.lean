/-
  File:      Wirebone/Netmap/Naming.lean
  Subject:   THE NAME OF A NODE, written in three places: as `Name` of the node in a map, as `Name` of
             its records in the same map, and as the name a DNS query is compared with.

  The three start from one host name. Only `node_to_tailcfg` looks at its last character: a name that
  ends in a dot is taken as qualified there and stays as it is, and the two siblings qualify it:

  * `NamesAgree` -- one name, up to case and the dot at the end;
  * **`naming_agrees_iff`** -- the names agree exactly where the host name has no dot at its end.
-/
import Wirebone.Netmap.Mutual
import Wirebone.Dns.Basic

namespace Wirebone

open ByteString

/-! ## 1. One host name -/

/-- The host name that all three start from. -/
def hostOf (n : NodeState) : Bytes :=
  if n.hostname = [] then ascii "node-" ++ n.stableId else n.hostname

/-- The name `answer` compares a query with. -/
def dnsFqdn (domain : Bytes) (n : NodeState) : Bytes := dnsHost n ++ ascii "." ++ lowerCopy domain

/-- **`name`, the records of the node and the name a query is compared with are one name.** -/
structure NamesAgree (domain : Bytes) (n : NodeState) (name : Bytes) : Prop where
  record : ∀ r ∈ dnsEntries domain n, name = r.name ++ ascii "."
  recordFqdn : ∀ r ∈ dnsEntries domain n, lowerCopy r.name = dnsFqdn domain n
  fqdn : lowerCopy name = dnsFqdn domain n ++ ascii "."

theorem lowerCopy_append (a b : Bytes) : lowerCopy (a ++ b) = lowerCopy a ++ lowerCopy b :=
  List.map_append

theorem lowerCopy_dot : lowerCopy (ascii ".") = ascii "." := by decide

theorem dnsMatches_iff (domain want : Bytes) (n : NodeState) :
    dnsMatches (lowerCopy domain) want n = true ↔
      want = dnsHost n ∨ want = dnsFqdn domain n ∨ want = dnsFqdn domain n ++ ascii "." := by
  simp only [dnsMatches, dnsFqdn, Bool.or_eq_true, decide_eq_true_eq, or_assoc]

/-- The records of a node are all under one name. -/
theorem dnsEntries_name {domain : Bytes} {n : NodeState} {r : DnsRecord}
    (hr : r ∈ dnsEntries domain n) : r.name = hostOf n ++ ascii "." ++ domain := by
  simp only [dnsEntries, List.mem_cons, List.not_mem_nil, or_false] at hr
  rcases hr with rfl | rfl
  · rfl
  · rfl

/-- `Name`: the special case of the dot at the end. -/
theorem nodeToTailcfg_name (n : NodeState) (domain now : Bytes) (self : Bool) :
    (nodeToTailcfg n domain now self).name =
      if (hostOf n).getLast? = some 46 then hostOf n
      else hostOf n ++ ascii "." ++ domain ++ ascii "." := rfl

/-! ## 2. The agreement -/

/-- A host name without the dot is qualified alike everywhere. -/
theorem namesAgree_of_plain (n : NodeState) (domain now : Bytes) (self : Bool)
    (h : (hostOf n).getLast? ≠ some 46) :
    NamesAgree domain n (nodeToTailcfg n domain now self).name := by
  have hfqdn : lowerCopy (hostOf n ++ ascii "." ++ domain) = dnsFqdn domain n := by
    rw [lowerCopy_append, lowerCopy_append, lowerCopy_dot]
    rfl
  rw [nodeToTailcfg_name, if_neg h]
  refine ⟨fun r hr => ?_, fun r hr => ?_, ?_⟩
  · rw [dnsEntries_name hr]
  · rw [dnsEntries_name hr, hfqdn]
  · rw [lowerCopy_append, hfqdn, lowerCopy_dot]

/-- A host name with the dot is shorter in the map than in the records. -/
theorem not_namesAgree_of_dot (n : NodeState) (domain now : Bytes) (self : Bool)
    (h : (hostOf n).getLast? = some 46) :
    ¬ NamesAgree domain n (nodeToTailcfg n domain now self).name := by
  intro hagree
  have hrec := hagree.record _ List.mem_cons_self
  rw [dnsEntries_name List.mem_cons_self, nodeToTailcfg_name, if_pos h] at hrec
  have hlen := congrArg List.length hrec
  have hdot : (ascii ".").length = 1 := rfl
  simp only [List.length_append, hdot] at hlen
  omega

/-- **The three names of a node agree exactly where its host name does not end in a dot.** The
    records of a map are those of the nodes it shows, a query is compared with `dnsHost`, `dnsFqdn`
    and that with a dot, and the `Name` of a node in any map goes with them iff `hostOf` is plain. -/
theorem naming_agrees_iff (viewer : NodeState) (all : List NodeState) (domain now : Bytes) :
    (buildFullMap viewer all domain now).dnsConfig.extraRecords =
        (all.filter (nodeVisibleTo viewer)).flatMap (dnsEntries domain) ∧
      ∀ n : NodeState,
        (∀ want, dnsMatches (lowerCopy domain) want n = true ↔
          want = dnsHost n ∨ want = dnsFqdn domain n ∨ want = dnsFqdn domain n ++ ascii ".") ∧
        ∀ self, NamesAgree domain n (nodeToTailcfg n domain now self).name ↔
          (hostOf n).getLast? ≠ some 46 := by
  refine ⟨extraRecords_eq domain now viewer all, fun n => ⟨fun want => dnsMatches_iff domain want n,
    fun self => ⟨fun hagree hdot => ?_, namesAgree_of_plain n domain now self⟩⟩⟩
  exact not_namesAgree_of_dot n domain now self hdot hagree

/-- A host that calls itself `alice.` is `alice.` in the map and `alice..q.local` in its records. -/
theorem naming_disagrees :
    ∃ n : NodeState, n.hostname = ascii "alice." ∧
      (nodeToTailcfg n (ascii "q.local") [] true).name = ascii "alice." ∧
      (buildFullMap n [n] (ascii "q.local") []).dnsConfig.extraRecords.map (·.name) =
        [ascii "alice..q.local", ascii "alice..q.local"] ∧
      dnsFqdn (ascii "q.local") n = ascii "alice..q.local" ∧
      ¬ NamesAgree (ascii "q.local") n (nodeToTailcfg n (ascii "q.local") [] true).name :=
  ⟨{ id := 1, hostname := ascii "alice." }, rfl, by decide +kernel, by decide +kernel,
    by decide +kernel, not_namesAgree_of_dot _ _ _ _ (by decide)⟩

end Wirebone
