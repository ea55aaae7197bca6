import Konduit.Tx.ExpireRuns

/-!
# What both builders make of a channel

The steps of the first builder that end a channel, and the step that the adaptor claims by.
Asked for the same in the same time, both builders refuse, or make the same step to the same
channel: but the first one responds to a channel that has elapsed, and it continues the
pendings that it frees.  So along a run they stay together just as long as they are not asked
for these (`outcomes_eq_iff`).
-/

open Lib

namespace Konduit.Tx

open Data Tmp

/-! ### The other steps of the first builder -/

/-- Why a channel does not end. -/
inductive EolError where
  | pair (stage step : String)
  | noLower
  | early (lower deadline : Duration)
deriving DecidableEq

/-- The first builder's check of an elapse. -/
def Variables.elapse (self : Variables) (lower : Duration) : Except EolError Unit :=
  match self.stage with
  | .closed _ _ elapseAt => if lower ≤ elapseAt then .error (.early lower elapseAt) else .ok ()
  | stage => .error (.pair (label stage) "Elapse")

namespace Channel

/-- The first builder's elapse. -/
def elapse (self : Channel) (lower : Duration) : Except EolError Stepped := do
  self.vars.elapse lower
  return ⟨self, .eol .elapse, Bounds.ofLower lower⟩

/-- The pendings of a channel that ends are timed out. -/
def «end» (self : Channel) (lower : Option Duration) : Except EolError Stepped :=
  match self.stage with
  | .responded _ pendings =>
    if pendings.isEmpty then .ok ⟨self, .eol .end, ⟨none, none⟩⟩
    else
      match lower with
      | none => .error .noLower
      | some lower =>
        match pendings.find? fun pending => pending.timeout ≥ lower with
        | some pending => .error (.early lower pending.timeout)
        | none => .ok ⟨self, .eol .end, Bounds.ofLower lower⟩
  | stage => .error (.pair (label stage) "End")

/-- The first builder's unlock, by the secrets of the receipt. -/
def unlock (self : Channel) (crypto : Crypto) (receipt : Receipt) (upper : Duration) :
    Except StepError Stepped :=
  self.unlockWithSecrets crypto (receipt.unlockeds.map fun u => u.body.latch) upper

/-- The step of the adaptor that the stage calls for. -/
def anySub (self : Channel) (crypto : Crypto) (receipt : Receipt) (upper : Duration) :
    Except StepError Stepped :=
  match self.stage with
  | .opened _ _ => self.sub receipt upper
  | .closed _ _ _ => self.respond receipt upper
  | .responded _ _ => self.unlock crypto receipt upper

end Channel

end Konduit.Tx

namespace Konduit.Tx2

open Data Tx Tmp

/-- What the adaptor wants of a channel in this stage. -/
def Want.fromClaim (stage : Stage) (squash : Squash .unverified)
    (cheques : List (Cheque .unverified)) : Want :=
  match stage with
  | .opened _ _ => .sub squash (cheques.filterMap Cheque.asUnlocked)
  | .closed _ _ _ => .respond squash cheques
  | .responded _ _ => .unlock ((cheques.filterMap Cheque.asUnlocked).map fun u => u.body.latch)

/-! ### The same request to both -/

/-- What is asked of a builder, with the times it is to hold at. -/
inductive Request where
  | call (call : Call)
  | claim (receipt : Receipt) (upper : Duration)
  | elapse (lower : Duration)
  | end (lower : Option Duration)

/-- What is asked of the second builder. -/
def Call.want : Call → Want
  | .add amount => .add amount
  | .sub receipt _ => .sub (receipt.squash.withState .unverified)
      (receipt.unlockeds.map (ChequeSigned.withState .unverified))
  | .close _ => .close
  | .respond receipt _ => .respond (receipt.squash.withState .unverified)
      (receipt.cheques.map (Cheque.withState .unverified))
  | .unlock secrets _ => .unlock secrets
  | .expire _ => .expire

/-- The interval that a call is made in. -/
def Call.interval : Call → Interval
  | .add _ => ⟨none, none⟩
  | .sub _ upper | .close upper | .respond _ upper | .unlock _ upper => ⟨none, some upper⟩
  | .expire lower => ⟨some lower, none⟩

/-- Where a will leads. -/
def Will.stepTo : Will → StepTo
  | cont output step => .cont step.toStep ⟨output.amount, output.stage⟩
  | eol step => .eol step.toStep

namespace Request

variable (crypto : Crypto)

/-- Where the first builder leads, unless it refuses. -/
def first (channel : Channel) : Request → Option StepTo
  | call c => (channel.toTx.step crypto c).bind fun r => r.toOption.map Stepped.stepTo
  | claim receipt upper => (channel.toTx.anySub crypto receipt upper).toOption.map Stepped.stepTo
  | elapse lower => (channel.toTx.elapse lower).toOption.map Stepped.stepTo
  | .end lower => (channel.toTx.end lower).toOption.map Stepped.stepTo

/-- Where the second builder leads, unless it refuses. -/
def second (channel : Channel) (request : Request) : Option StepTo :=
  let result := match request with
    | call c => channel.resolve crypto (Call.want c) (Call.interval c)
    | claim receipt upper => channel.resolve crypto
        (.fromClaim channel.stage (receipt.squash.withState .unverified)
          (receipt.cheques.map (Cheque.withState .unverified))) ⟨none, some upper⟩
    | elapse lower => channel.resolve crypto .elapse ⟨some lower, none⟩
    | .end lower => channel.resolve crypto .end ⟨lower, none⟩
  result.toOption.map Will.stepTo

/-- The request is no respond to an elapsed channel, and no unlock where something is pending.
-/
def Shared (stage : Stage) (request : Request) : Prop :=
  match request, stage with
  | call (.respond _ upper), .closed _ _ elapseAt | claim _ upper, .closed _ _ elapseAt =>
    upper < elapseAt
  | call (.unlock _ _), .responded _ pendings | claim _ _, .responded _ pendings => pendings = []
  | _, _ => True

end Request

/-! ### One request -/

section Step

variable {crypto : Crypto} {channel : Channel}

/-- Two builders that are known to make one step each, under a condition, lead to the same where
both conditions say the same and both steps lead to the same. -/
lemma map_toOption_eq_iff {ε ε' α β γ : Type} {x : Except ε α} {y : Except ε' β} {f : α → γ}
    {g : β → γ} {p q : Prop} {a : α} {b : β} (hx : ∀ {r}, x = .ok r ↔ p ∧ r = a)
    (hy : ∀ {r}, y = .ok r ↔ q ∧ r = b) :
    x.toOption.map f = y.toOption.map g ↔ (p ↔ q) ∧ (p → f a = g b) := by
  have hnone : ∀ {ε α : Type} {x : Except ε α} {p : Prop} {a : α},
      (∀ {r}, x = .ok r ↔ p ∧ r = a) → ¬p → x.toOption = none := by
    intro ε α x p a hx hp
    cases x with
    | error e => rfl
    | ok r => exact absurd (hx.mp rfl).1 hp
  by_cases hp : p <;> by_cases hq : q
  · rw [hx.mpr ⟨hp, rfl⟩, hy.mpr ⟨hq, rfl⟩]
    simp [Except.toOption, hp, hq]
  · rw [hx.mpr ⟨hp, rfl⟩, hnone hy hq]
    simp [Except.toOption, hp, hq]
  · rw [hy.mpr ⟨hq, rfl⟩, hnone hx hp]
    simp [Except.toOption, hp, hq]
  · rw [hnone hx hp, hnone hy hq]
    simp [hp, hq]

/-- A list and the part of it that does not meet a condition are where it does and where it does
not, unless it is empty. -/
lemma filter_eq_filter_not_iff {α : Type} {p : α → Bool} {l : List α} :
    (l.filter fun a => !p a) = l.filter p ↔ l = [] := by
  constructor
  · intro h
    refine List.eq_nil_iff_forall_not_mem.mpr fun a ha => ?_
    cases hp : p a with
    | true =>
      have hmem : a ∈ l.filter fun a => !p a := h ▸ List.mem_filter.mpr ⟨ha, hp⟩
      simp [hp] at hmem
    | false =>
      have hmem : a ∈ l.filter p := h ▸ List.mem_filter.mpr ⟨ha, by simp [hp]⟩
      simp [hp] at hmem
  · rintro rfl
    rfl

lemma add_agree (amount : UInt64) (interval : Interval) :
    (channel.toTx.add amount).toOption.map Stepped.stepTo =
      (channel.resolve crypto (.add amount) interval).toOption.map Will.stepTo := by
  obtain ⟨delegation, constants, amount', stage⟩ := channel
  cases stage with
  | opened subbed useds =>
    simp only [Tx.Channel.add, Variables.add, Channel.resolve, Channel.wantAdd, Channel.toTx]
    by_cases hzero : amount = 0
    · rw [if_pos hzero, if_pos hzero]
      rfl
    · rw [if_neg hzero, if_neg hzero]
      rfl
  | closed | responded => rfl

lemma sub_agree (receipt : Receipt) (lower : Option Duration) (upper : Duration) :
    (channel.toTx.sub receipt upper).toOption.map Stepped.stepTo =
      (channel.resolve crypto (.sub (receipt.squash.withState .unverified)
        (receipt.unlockeds.map (ChequeSigned.withState .unverified)))
        ⟨lower, some upper⟩).toOption.map Will.stepTo := by
  obtain ⟨delegation, constants, amount, stage⟩ := channel
  cases stage with
  | opened subbed useds =>
    exact (map_toOption_eq_iff (sub_eq_ok rfl) (resolve_sub_eq_ok rfl)).mpr
      ⟨Iff.rfl, fun _ => rfl⟩
  | closed | responded => rfl

lemma close_agree (lower : Option Duration) (upper : Duration) :
    (channel.toTx.close upper).bind (fun r => r.toOption.map Stepped.stepTo) =
      (channel.resolve crypto .close ⟨lower, some upper⟩).toOption.map Will.stepTo := by
  obtain ⟨delegation, constants, amount, stage⟩ := channel
  cases stage with
  | opened subbed useds =>
    simp only [Channel.toTx, Tx.Channel.close, Variables.close, Channel.resolve, Channel.wantClose,
      Option.bind_eq_bind]
    cases upper.checkedAdd constants.closePeriod <;> rfl
  | closed | responded => rfl

/-- The first builder looks at no deadline. -/
lemma respond_agree_iff (receipt : Receipt) (lower : Option Duration) (upper : Duration) :
    (channel.toTx.respond receipt upper).toOption.map Stepped.stepTo =
      (channel.resolve crypto (.respond (receipt.squash.withState .unverified)
        (receipt.cheques.map (Cheque.withState .unverified)))
        ⟨lower, some upper⟩).toOption.map Will.stepTo ↔
      (Request.call (.respond receipt upper)).Shared channel.stage := by
  obtain ⟨delegation, constants, amount, stage⟩ := channel
  cases stage with
  | closed subbed useds elapseAt =>
    refine (map_toOption_eq_iff ((respond_eq_ok rfl).trans (iff_of_eq (true_and _)).symm)
      (resolve_respond_eq_ok rfl)).trans ?_
    rw [true_iff]
    exact ⟨And.left, fun h => ⟨h, fun _ => rfl⟩⟩
  | opened | responded => exact iff_of_true rfl trivial

/-- The first builder continues what it frees, the second one what it does not. -/
lemma unlock_agree_iff (secrets : List Secret) (lower : Option Duration) (upper : Duration) :
    (channel.toTx.unlockWithSecrets crypto secrets upper).toOption.map Stepped.stepTo =
      (channel.resolve crypto (.unlock secrets) ⟨lower, some upper⟩).toOption.map Will.stepTo ↔
      (Request.call (.unlock secrets upper)).Shared channel.stage := by
  obtain ⟨delegation, constants, amount, stage⟩ := channel
  cases stage with
  | responded total pendings =>
    rw [resolve_unlock_eq rfl, Tx.Channel.unlockWithSecrets_eq rfl]
    change some (StepTo.cont _ _) = some (StepTo.cont _ _) ↔ pendings = []
    rw [remaining_eq, Option.some.injEq, StepTo.cont.injEq, Variables.mk.injEq]
    constructor
    · rintro ⟨-, -, hsame⟩
      exact filter_eq_filter_not_iff.mp (Stage.responded.inj hsame).2
    · rintro rfl
      exact ⟨rfl, rfl, rfl⟩
  | opened | closed => exact iff_of_true rfl trivial

lemma expire_agree (lower : Duration) (upper : Option Duration) :
    (channel.toTx.expire lower).toOption.map Stepped.stepTo =
      (channel.resolve crypto .expire ⟨some lower, upper⟩).toOption.map Will.stepTo := by
  obtain ⟨delegation, constants, amount, stage⟩ := channel
  cases stage with
  | responded total pendings =>
    change (if (pendings.map (Channel.expireUnpend lower)).all Unpend.isContinue then _
      else _ : Except _ _).toOption.map _ =
      (if (pendings.map (Channel.expireUnpend lower)).all Unpend.isContinue then _
      else _ : Except _ _).toOption.map _
    split_ifs
    · rfl
    · rfl
  | opened | closed => rfl

lemma elapse_agree (lower : Duration) (upper : Option Duration) :
    (channel.toTx.elapse lower).toOption.map Stepped.stepTo =
      (channel.resolve crypto .elapse ⟨some lower, upper⟩).toOption.map Will.stepTo := by
  obtain ⟨delegation, constants, amount, stage⟩ := channel
  cases stage with
  | closed subbed useds elapseAt =>
    simp only [Tx.Channel.elapse, Variables.elapse, Channel.toTx, Channel.resolve,
      Channel.wantElapse, Channel.elapseAt]
    by_cases hearly : lower ≤ elapseAt
    · rw [if_pos hearly, if_pos hearly]
      rfl
    · rw [if_neg hearly, if_neg hearly]
      rfl
  | opened | responded => rfl

lemma end_agree (lower upper : Option Duration) :
    (channel.toTx.end lower).toOption.map Stepped.stepTo =
      (channel.resolve crypto .end ⟨lower, upper⟩).toOption.map Will.stepTo := by
  obtain ⟨delegation, constants, amount, stage⟩ := channel
  cases stage with
  | responded total pendings =>
    simp only [Tx.Channel.end, Channel.resolve, Channel.wantEnd, Channel.toTx, Tx.Channel.stage]
    by_cases hempty : pendings.isEmpty = true
    · rw [if_pos hempty, if_pos hempty]
      rfl
    rw [if_neg hempty, if_neg hempty]
    cases lower with
    | none => rfl
    | some lower =>
      cases hfind : pendings.find? fun pending => pending.timeout ≥ lower with
      | some pending =>
        have hany : (pendings.any fun pending => pending.timeout ≥ lower) = true :=
          List.any_eq_true.mpr ⟨pending, List.mem_of_find?_eq_some hfind, by
            simpa using List.find?_some hfind⟩
        simp only [hfind, hany]
        rfl
      | none =>
        have hany : (pendings.any fun pending => pending.timeout ≥ lower) = false :=
          List.any_eq_false.mpr fun p hp => List.find?_eq_none.mp hfind p hp
        simp only [hfind, hany, Bool.false_eq_true, if_false]
        rfl
  | opened | closed => rfl

lemma claim_agree_iff (receipt : Receipt) (upper : Duration) :
    (Request.claim receipt upper).first crypto channel =
        (Request.claim receipt upper).second crypto channel ↔
      (Request.claim receipt upper).Shared channel.stage := by
  have hunlockeds : (receipt.cheques.map (Cheque.withState .unverified)).filterMap
      Cheque.asUnlocked = receipt.unlockeds.map (ChequeSigned.withState .unverified) :=
    filterMap_asUnlocked_withState .unverified receipt.cheques
  obtain ⟨delegation, constants, amount, stage⟩ := channel
  let channel (stage : Stage) : Channel := ⟨delegation, constants, amount, stage⟩
  -- the stage decides what is claimed
  cases stage with
  | opened subbed useds =>
    simp only [Request.second, Want.fromClaim, hunlockeds]
    exact iff_of_true (@sub_agree crypto (channel (.opened subbed useds)) receipt none upper)
      trivial
  | closed subbed useds elapseAt =>
    exact @respond_agree_iff crypto (channel (.closed subbed useds elapseAt)) receipt none upper
  | responded total pendings =>
    have hsecrets : (receipt.unlockeds.map (ChequeSigned.withState .unverified)).map
        (fun u => u.body.latch) = receipt.unlockeds.map fun u => u.body.latch := by
      rw [List.map_map]
      rfl
    simp only [Request.second, Want.fromClaim, hunlockeds, hsecrets]
    exact @unlock_agree_iff crypto (channel (.responded total pendings)) _ none upper

/-- Both builders lead to the same, or both refuse, just where they are not asked for what they
do in their own ways. -/
lemma first_eq_second_iff (request : Request) :
    request.first crypto channel = request.second crypto channel ↔
      request.Shared channel.stage := by
  cases request with
  | claim receipt upper => exact claim_agree_iff receipt upper
  | elapse lower => exact iff_of_true (elapse_agree lower none) trivial
  | «end» lower => exact iff_of_true (end_agree lower none) trivial
  | call c =>
    cases c with
    | add amount => exact iff_of_true (add_agree amount ⟨none, none⟩) trivial
    | sub receipt upper => exact iff_of_true (sub_agree receipt none upper) trivial
    | close upper => exact iff_of_true (close_agree none upper) trivial
    | respond receipt upper => exact respond_agree_iff receipt none upper
    | unlock secrets upper => exact unlock_agree_iff secrets none upper
    | expire lower => exact iff_of_true (expire_agree lower none) trivial

end Step

/-! ### Requests one after another -/

/-- The channel after a request: as it was when the builder refused, and none when it ended. -/
def Channel.after (self : Channel) : Option StepTo → Option Channel
  | none => some self
  | some (.cont _ vars) => some (self.stepped vars.amount vars.stage)
  | some (.eol _) => none

/-- Where a builder leads with one request after another, each of the channel that the one before
left. -/
def outcomes (builder : Channel → Request → Option StepTo) :
    Option Channel → List Request → List (Option StepTo)
  | _, [] => []
  | none, _ :: requests => none :: outcomes builder none requests
  | some channel, request :: requests =>
    builder channel request :: outcomes builder (channel.after (builder channel request)) requests

/-- No request is one that the builders meet in their own ways, each of the channel that the one
before left. -/
def AllShared (crypto : Crypto) : Option Channel → List Request → Prop
  | _, [] => True
  | none, _ :: requests => AllShared crypto none requests
  | some channel, request :: requests => request.Shared channel.stage ∧
    AllShared crypto (channel.after (request.first crypto channel)) requests

/-- **Two builders.**  From any channel and with any requests one after another, both builders
lead to the same steps and channels just as long as they are not asked to respond after the
deadline, or to unlock where something is pending. -/
theorem outcomes_eq_iff (crypto : Crypto) (channel : Option Channel) (requests : List Request) :
    outcomes (fun c r => r.first crypto c) channel requests =
        outcomes (fun c r => r.second crypto c) channel requests ↔
      AllShared crypto channel requests := by
  induction requests generalizing channel with
  | nil => simp [outcomes, AllShared]
  | cons request requests ih =>
    cases channel with
    | none => simp only [outcomes, AllShared, List.cons.injEq, true_and, ih]
    | some channel =>
      rw [outcomes, outcomes, AllShared, List.cons.injEq, first_eq_second_iff]
      -- while they agree, both go on from the same channel
      refine and_congr_right fun hshared => ?_
      have hsame : request.first crypto channel = request.second crypto channel :=
        (first_eq_second_iff request).mpr hshared
      rw [← hsame, ih]

end Konduit.Tx2
