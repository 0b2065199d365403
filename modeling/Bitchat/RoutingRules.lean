import Bitchat.Failover
import Bitchat.Rust.StableSort

/-!
# Routing rules by priority

A rule is pushed to the table and the table is sorted again by falling priority, with a stable
sort. So the first rule that matches is the one of highest priority, and among equals the one
that was added first.
-/
namespace Bitchat
open Rust

namespace RoutingTable

def addRule (table : RoutingTable) (rule : RoutingRule) : RoutingTable :=
  ⟨sortByRank RoutingRule.priority (table.rules ++ [rule])⟩

/-- The table after adding the rules one by one. -/
def added (rules : List RoutingRule) : RoutingTable := rules.foldl addRule new

theorem rankOrder_foldl {earlier : List RoutingRule} {table : RoutingTable}
    (h : RankOrder RoutingRule.priority earlier table.rules) (rules : List RoutingRule) :
    RankOrder RoutingRule.priority (earlier ++ rules) (rules.foldl addRule table).rules := by
  induction rules generalizing earlier table with
  | nil => rwa [List.append_nil]
  | cons rule rules ih =>
    have hpush : RankOrder RoutingRule.priority (earlier ++ [rule]) (table.addRule rule).rules :=
      h.push rule
    have hnext := ih hpush
    rwa [List.append_assoc, List.singleton_append] at hnext

theorem rankOrder_added (rules : List RoutingRule) :
    RankOrder RoutingRule.priority rules (added rules).rules :=
  rankOrder_foldl rankOrder_nil rules

/-- After any rules were added, one is found exactly if one of them matches, and it is the one
of highest priority among those, the first of them where several have it. -/
theorem findRule_added (rules : List RoutingRule) (peerId : Option PeerId)
    (context : MessageContext) :
    (((added rules).findRule peerId context).isSome = true ↔
      ∃ rule ∈ rules, rule.matches peerId context = true) ∧
    ∀ rule, (added rules).findRule peerId context = some rule →
      rule.matches peerId context = true ∧ ∃ earlier later, rules = earlier ++ rule :: later ∧
        (∀ other ∈ earlier, other.matches peerId context = true →
          other.priority < rule.priority) ∧
        ∀ other ∈ later, other.matches peerId context = true → other.priority ≤ rule.priority := by
  constructor
  · exact (rankOrder_added rules).find?_isSome _
  · intro rule hfind
    have hfirst : (added rules).rules.find? (fun rule => rule.matches peerId context) =
        some rule := hfind
    have hmatches := List.find?_some hfirst
    exact ⟨hmatches, (rankOrder_added rules).find?_eq_some hfirst⟩

end RoutingTable

end Bitchat
