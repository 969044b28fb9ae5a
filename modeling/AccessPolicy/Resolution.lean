import AccessPolicy.Policy.Basic
import AccessPolicy.Verdict

/-!
# From matched policies to a verdict

Policies speak in ascending order of priority, those of one priority in ascending order of their ids.  The last
one that forces a response, the last one that redirects and the last one with rights are the candidates, and the
one of the highest priority decides: at one priority rights come before a response, and that before a redirect.
Rights are settled bucket by bucket, a bucket being the policies of one priority: what it denies is taken away,
and what it allows and does not deny is added.
-/

namespace AccessPolicy

namespace Policy

/-- The order in which policies speak. -/
def precedes (a b : Policy) : Bool := a.priority < b.priority || (a.priority == b.priority && a.id ≤ b.id)

def deniedRights (p : Policy) : List String := p.effects.denied.map Text.lower

def allowedRights (p : Policy) : List String := p.effects.allowed.map Text.lower

end Policy

namespace Resolution

/-- The policies in the order in which they speak. -/
def ordered (matched : List Policy) : List Policy := matched.mergeSort Policy.precedes

/-- The last policy of a kind. -/
def last? (kind : Policy → Bool) (policies : List Policy) : Option Policy := (policies.filter kind).getLast?

/-- The first priority is there and higher than the second, or the second is not there. -/
def above : Option Int64 → Option Int64 → Bool
  | some a, some b => b < a
  | some _, none => true
  | none, _ => false

/-- The rights after a bucket of policies of one priority. -/
def settle (granted : List String) (bucket : List Policy) : List String :=
  let denied := bucket.flatMap Policy.deniedRights
  let allowed := bucket.flatMap Policy.allowedRights
  allowed.foldl
    (fun granted right => if denied.contains right || granted.contains right then granted else granted ++ [right])
    (granted.filter (!denied.contains ·))

/-- The rights that policies in speaking order leave, in the order in which they were granted. -/
def grantedRights (policies : List Policy) : List String :=
  (policies.splitBy fun a b => a.priority == b.priority).foldl settle []

/-- The ids of all matched policies. -/
def idsEntry (policies : List Policy) : String × String := ("policies", ",".intercalate (policies.map Policy.id))

/-- The id of the policy that decides. -/
def deciderEntry (p : Policy) : String × String := ("policy", p.id)

end Resolution

open Resolution in
/-- The verdict on a request that matches these policies. -/
def resolve (matched : List Policy) : Verdict :=
  if matched.isEmpty then .neutral
  else
    let policies := ordered matched
    let response := last? Policy.forcesResponse policies
    let redirect := last? (·.redirectTarget?.isSome) policies
    let rightsPriority := (last? Policy.hasRights policies).map Policy.priority
    let responsePriority := response.map Policy.priority
    let redirectPriority := redirect.map Policy.priority
    let responds := !above redirectPriority responsePriority && above responsePriority rightsPriority
    match response.filter fun _ => responds, redirect.filter fun _ => above redirectPriority rightsPriority with
    | some p, _ =>
      { kind := some .response
        response := { code := p.effects.returnCode, message := p.effects.returnMessage.getD "" }
        metadata := [idsEntry policies, deciderEntry p] }
    | none, some p =>
      { kind := some .redirect
        redirect := p.redirectTarget?
        metadata := [idsEntry policies, deciderEntry p] }
    | none, none =>
      { kind := some .rights
        rights := grantedRights policies
        metadata := [idsEntry policies] }

end AccessPolicy
