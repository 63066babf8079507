/-
The egress rules of the sidecar (proxy/dnat.go, `PlanRules`).

A plan is a list of commands, each with the argv the source builds. Netfilter reads a
locally generated packet through nat OUTPUT and then, with the destination rewritten,
through filter OUTPUT; the first matching rule of a chain decides, and what none matches
is accepted unless a policy says otherwise. TCP has no way past the plan and IPv6 no way
at all, but UDP to any port other than 53 matches no rule.
-/
import Mathlib.Algebra.Ring.Nat

namespace Synthorg.Sidecar.Egress

open List

-- ==== the plan

inductive Protocol where
  | udp
  | tcp
  deriving DecidableEq

inductive Target where
  | accept
  | drop
  | ret
  | dnat (port : UInt16)

/-- A rule appended to the IPv4 OUTPUT chain of the nat or the filter table. -/
structure Rule where
  nat : Bool
  protocol : Protocol
  dport : Option UInt16
  uidOwner : Option Int
  notLoopback : Bool
  target : Target

inductive Command where
  | append (rule : Rule)
  | closeIPv6

def dnsPort : UInt16 := 53

def Target.argv : Target → List String
  | .accept => ["-j", "ACCEPT"]
  | .drop => ["-j", "DROP"]
  | .ret => ["-j", "RETURN"]
  | .dnat port => ["-j", "DNAT", "--to-destination", "127.0.0.1:" ++ toString port]

/-- The argv of a command, with the lock wait of `withLockWait`. -/
def Command.argv : Command → List String
  | .append r =>
    ["iptables-nft", "-w", "5"] ++ (if r.nat then ["-t", "nat"] else []) ++
      ["-A", "OUTPUT", "-p"] ++
      (if r.protocol = .tcp then ["tcp"] else ["udp"]) ++
      (r.dport.elim [] fun port => ["--dport", toString port]) ++
      (r.uidOwner.elim [] fun uid => ["-m", "owner", "--uid-owner", toString uid]) ++
      (if r.notLoopback then ["!", "-d", "127.0.0.0/8"] else []) ++ r.target.argv
  | .closeIPv6 => ["ip6tables-nft", "-w", "5", "-P", "OUTPUT", "DROP"]

def planRules (proxyPort : UInt16) (dnsAllowed : Bool) (ownerUID : Int) : List Command :=
  [.append ⟨true, .tcp, none, some ownerUID, false, .ret⟩] ++
  (if !dnsAllowed then [.append ⟨true, .tcp, some dnsPort, none, false, .ret⟩] else []) ++
  [.append ⟨true, .tcp, none, none, true, .dnat proxyPort⟩] ++
  (if !dnsAllowed then
    [Protocol.udp, .tcp].flatMap fun proto => [
      .append ⟨false, proto, some dnsPort, some ownerUID, false, .accept⟩,
      .append ⟨false, proto, some dnsPort, none, false, .drop⟩]
  else []) ++
  [.closeIPv6]

-- ==== netfilter

inductive Address where
  | v4 (address : BitVec 32)
  | v6 (address : BitVec 128)
  deriving DecidableEq

/-- 127.0.0.0/8, and `::1`. -/
def Address.isLoopback : Address → Bool
  | .v4 address => address.toNat / 2 ^ 24 = 127
  | .v6 address => address = 1

structure Packet where
  uid : Int
  protocol : Protocol
  destination : Address
  port : UInt16
  deriving DecidableEq

def Rule.covers (r : Rule) (p : Packet) : Bool :=
  p.protocol = r.protocol && r.dport.all (p.port = ·) && r.uidOwner.all (p.uid = ·) &&
    !(r.notLoopback && p.destination.isLoopback)

def firstMatch (plan : List Command) (nat : Bool) (p : Packet) : Option Target :=
  plan.findSome? fun
    | .append r => if r.nat = nat ∧ r.covers p then some r.target else none
    | .closeIPv6 => none

def redirected (proxyPort : UInt16) (p : Packet) : Packet :=
  { p with destination := .v4 0x7f000001, port := proxyPort }

/-- `none` is dropped; a packet neither rewritten nor dropped goes out as it is. -/
def send (plan : List Command) (p : Packet) : Option Packet :=
  match p.destination with
  | .v6 _ => if plan.any (· matches .closeIPv6) then none else some p
  | .v4 _ =>
    let p := match firstMatch plan true p with
      | some (.dnat port) => redirected port p
      | _ => p
    match firstMatch plan false p with
    | some .drop => none
    | _ => some p

-- ==== what the plan lets through

section
variable {proxyPort : UInt16} {dnsAllowed : Bool} {ownerUID : Int} {p : Packet}

theorem nat_planRules : firstMatch (planRules proxyPort dnsAllowed ownerUID) true p =
    if p.protocol = .udp then none
    else if p.uid = ownerUID then some .ret
    else if dnsAllowed = false ∧ p.port = dnsPort then some .ret
    else if p.destination.isLoopback then none
    else some (.dnat proxyPort) := by
  cases dnsAllowed <;> cases hp : p.protocol <;> by_cases huid : p.uid = ownerUID <;>
    by_cases hport : p.port = dnsPort <;> cases hloop : p.destination.isLoopback <;>
    simp [firstMatch, planRules, Rule.covers, huid, hport, hloop, hp]

theorem filter_planRules : firstMatch (planRules proxyPort dnsAllowed ownerUID) false p =
    if dnsAllowed = false ∧ p.port = dnsPort then
      some (if p.uid = ownerUID then .accept else .drop)
    else none := by
  cases dnsAllowed <;> cases hp : p.protocol <;> by_cases huid : p.uid = ownerUID <;>
    by_cases hport : p.port = dnsPort <;>
    simp [firstMatch, planRules, Rule.covers, huid, hport, hp]

theorem send_v6 {a : BitVec 128} (ha : p.destination = .v6 a) :
    send (planRules proxyPort dnsAllowed ownerUID) p = none := by
  rw [send, ha]
  cases dnsAllowed <;> rfl

/-- What the two chains come to for an IPv4 packet. -/
theorem send_v4 {a : BitVec 32} (ha : p.destination = .v4 a) :
    send (planRules proxyPort dnsAllowed ownerUID) p =
      if p.uid = ownerUID then some p
      else if dnsAllowed = false ∧ p.port = dnsPort then none
      else if p.protocol = .udp ∨ p.destination.isLoopback then some p
      else if dnsAllowed = false ∧ proxyPort = dnsPort then none
      else some (redirected proxyPort p) := by
  simp only [send, ha, nat_planRules]
  by_cases huid : p.uid = ownerUID
  · cases p.protocol <;> simp [filter_planRules, huid]
  · by_cases hd : dnsAllowed = false ∧ p.port = dnsPort
    · cases p.protocol <;> simp [filter_planRules, huid, hd]
    · by_cases hleft : p.protocol = .udp ∨ (Address.v4 a).isLoopback = true
      · rcases hleft with hudp | hloop
        · simp [filter_planRules, hd, hudp]
        · cases p.protocol <;> simp [filter_planRules, hd, hloop]
      · simp only [not_or] at hleft
        by_cases hproxy : dnsAllowed = false ∧ proxyPort = dnsPort
        · have hport : p.port ≠ dnsPort := fun h => hd ⟨hproxy.1, h⟩
          simp [filter_planRules, redirected, huid, hleft, hproxy, hport]
        · simp [filter_planRules, redirected, huid, hd, hleft, hproxy]

-- ==== the allowlist kept

variable (proxyPort dnsAllowed ownerUID p) in
/-- Another account's packet that leaves the host is redirected or dropped, but for DNS over UDP
where that is allowed; one to port 53 is dropped where not; the serving account's IPv4 packets
go out as they are. -/
def Confined : Prop :=
  let sent := send (planRules proxyPort dnsAllowed ownerUID) p
  (p.uid ≠ ownerUID → p.destination.isLoopback = false →
    sent = none ∨ sent = some (redirected proxyPort p) ∨
      p.protocol = .udp ∧ p.port = dnsPort ∧ dnsAllowed = true) ∧
  (p.uid ≠ ownerUID → dnsAllowed = false → p.port = dnsPort → sent = none) ∧
  (p.uid = ownerUID → (∃ a, p.destination = .v4 a) → sent = some p)

/-- The plan confines all but another account's UDP datagrams to ports other than 53. -/
theorem planRules_confines_iff (proxyPort : UInt16) (dnsAllowed : Bool) (ownerUID : Int)
    (p : Packet) :
    Confined proxyPort dnsAllowed ownerUID p ↔
      ¬ (p.uid ≠ ownerUID ∧ p.protocol = .udp ∧ p.port ≠ dnsPort ∧
        p.destination.isLoopback = false ∧ ∃ a, p.destination = .v4 a) := by
  unfold Confined
  cases ha : p.destination with
  | v6 a => simp [send_v6 ha]
  | v4 a =>
    have hmoved : (Address.v4 a).isLoopback = false → p ≠ redirected proxyPort p := by
      intro hloop heq
      have hdest : p.destination = .v4 0x7f000001 := congrArg Packet.destination heq
      rw [← ha, hdest] at hloop
      exact absurd hloop (by decide)
    rw [send_v4 ha, ha]
    by_cases huid : p.uid = ownerUID
    · simp [huid]
    · cases hloop : (Address.v4 a).isLoopback with
      | true => by_cases hport : p.port = dnsPort <;> cases dnsAllowed <;> simp [huid]
      | false =>
        have hmoved := hmoved hloop
        cases hp : p.protocol with
        | tcp =>
          by_cases hport : p.port = dnsPort <;> by_cases hproxy : proxyPort = dnsPort <;>
            cases dnsAllowed <;> simp [huid, hport, hproxy]
        | udp =>
          by_cases hport : p.port = dnsPort <;> cases dnsAllowed <;>
            simp [huid, hmoved]

/-- A datagram to port 443 of a host goes past the allowlist. -/
theorem datagram_escapes :
    ¬ Confined 15001 false 10002 ⟨10001, .udp, .v4 0x08080808, 443⟩ := by
  intro h
  exact absurd (h.1 (by decide) (by decide)) (by decide)

end

end Synthorg.Sidecar.Egress
