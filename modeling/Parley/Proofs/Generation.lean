import Parley.Compile
import Parley.Proofs.Item
import Parley.Proofs.Signal
import Parley.Proofs.Variant
import Parley.Proofs.WayOut

/-! When a role has a source. Every target of a projection lands somewhere and every message has a
variant, so what is left to go wrong lies in the names: those of the variants, those by which an
observer tells branches apart, and that of the module. -/

namespace Parley

open Outcome

namespace Api

/-- The variant name of a message among those of a projection. -/
def variantName (p : Projection) (m : MessageRecord) : String :=
  (Key.ofRecord m).variantName (keys [p])

/-- What is asked of the names in a projection. -/
structure Nameable (o : Options) (p : Projection) : Prop where
  variants : ∀ m ∈ p.messages, ∀ m' ∈ p.messages, variantName p m = variantName p m' →
    Key.ofRecord m = Key.ofRecord m'
  observed : ∀ r ∈ p.choices, r.role = .observer → ToldApart r [] r.branches
  moduleName : o.inline = true → ∃ c cs, o.moduleName.toList = c :: cs ∧
    (Text.isLetter c = true ∨ c = '_') ∧
    ∀ d ∈ o.moduleName.toList, Text.isLetterOrNumber d = true ∨ d = '_'

/-! ### Variants -/

/-- The variants of a projection can be named if its keys go by different names, and each message
then has its own. -/
theorem settles_variants (p : Projection) :
    Settles (variants [p]) (∀ m ∈ p.messages, ∀ m' ∈ p.messages,
      variantName p m = variantName p m' → Key.ofRecord m = Key.ofRecord m') ApiError.OfNames := by
  have hmem {m : MessageRecord} (hm : m ∈ p.messages) : Key.ofRecord m ∈ keys [p] :=
    mem_keys.mpr ⟨p, List.mem_singleton_self p, m, hm, rfl⟩
  rcases variants_cases [p] with ⟨hnodup, hok⟩ | ⟨hclash, first, second, variant, herror⟩
  · refine .inl ⟨?_, _, hok⟩
    intro m hm m' hm' hname
    exact List.inj_on_of_nodup_map hnodup (hmem hm) (hmem hm') hname
  · refine .inr ⟨?_, _, herror, trivial⟩
    intro hinj
    apply hclash
    refine (keys_nodup [p]).map_on ?_
    intro k hk k' hk' hname
    obtain ⟨q, hq, m, hm, rfl⟩ := mem_keys.mp hk
    obtain ⟨q', hq', m', hm', rfl⟩ := mem_keys.mp hk'
    obtain rfl := List.mem_singleton.mp hq
    obtain rfl := List.mem_singleton.mp hq'
    exact hinj m hm m' hm' hname

/-! ### Branches that are observed -/

/-- The labels of the branches are found just if they tell the branches apart. -/
theorem settles_observedLabels (r : ChoiceRecord) (bs : List ChoiceBranch) :
    Settles (observedLabels r [] bs) (ToldApart r [] bs) ApiError.OfNames := by
  have hnil : (([] : List String).map Text.pascalCase).Nodup := List.nodup_nil
  rcases observedLabels_cases hnil with ⟨signals, hall, hnodup, hok⟩ | ⟨hclash, e, he, hknown⟩
  · exact .inl ⟨⟨signals, hall, hnodup⟩, _, hok⟩
  · exact .inr ⟨hclash, e, he, hknown⟩

/-! ### Items -/

theorem isModuleName_iff {name : String} : isModuleName name = true ↔
    ∃ c cs, name.toList = c :: cs ∧ (Text.isLetter c = true ∨ c = '_') ∧
      ∀ d ∈ name.toList, Text.isLetterOrNumber d = true ∨ d = '_' := by
  unfold isModuleName
  cases name.toList with
  | nil => simp
  | cons c cs => simp

theorem settles_assemble (o : Options) (sources body : List String) :
    Settles (assemble o sources body) (o.inline = true → isModuleName o.moduleName = true)
      ApiError.OfNames := by
  unfold assemble
  by_cases hinline : o.inline = true
  · rw [if_neg (by simp [hinline])]
    by_cases hname : isModuleName o.moduleName = true
    · rw [if_neg (by simp [hname])]
      exact .inl ⟨fun _ => hname, _, rfl⟩
    · rw [if_pos (by simpa using hname)]
      exact .inr ⟨fun h => hname (h hinline), _, rfl, trivial⟩
  · rw [if_pos (by simpa using hinline)]
    exact .inl ⟨fun h => absurd h hinline, _, rfl⟩

end Api

/-- The targets of a projection: where it starts, where its steps lead, and where its forks go. -/
def Projection.Aims (p : Projection) (t : Target) : Prop :=
  t = p.start ∨ (∃ x, p.Lists x ∧ t ∈ x.targets) ∨ ∃ r ∈ p.pars, t ∈ r.branches

namespace LocalProtocol.Yields

open Api

variable {l : LocalProtocol} {p : Projection} (y : l.Yields p)

include y

theorem exists_landing_of_aims {t : Target} (h : p.Aims t) : ∃ x, p.landing t = .ok x := by
  have hlanding {u : Stretch} (hu : l.Has u) (ht : u.target = .ok t) : ∃ x, p.landing t = .ok x := by
    obtain ⟨x, hx⟩ := y.exists_lands hu
    exact ⟨x, (Stretch.lands_iff ht).mp hx⟩
  rcases h with rfl | ⟨x, hx, ht⟩ | ⟨r, hr, ht⟩
  · exact hlanding .whole y.start
  · obtain ⟨s, hs, hrec⟩ := y.exists_stretch hx
    obtain ⟨u, hu, htarget, _⟩ := hrec.exists_of_mem_targets Frame.enclosures_choice hs ht
    exact hlanding hu htarget
  · obtain ⟨s, hs, hrec⟩ := y.exists_stretch (r := .par r) hr
    obtain ⟨u, hu, htarget, _⟩ := hrec.exists_frames_of_mem_branches hs ht
    exact hlanding hu htarget

theorem exists_messageItems {vs : List Variant} (hvs : variants [p] = .ok vs) {r : MessageRecord}
    (hr : r ∈ p.messages) : ∃ items, messageItems p vs r = .ok items := by
  have hv := variantOf_of_variants hvs (List.mem_singleton_self p) hr
  obtain ⟨next, hnext⟩ := y.exists_landing_of_aims (t := r.next)
    (.inr (.inl ⟨.message r, hr, List.mem_singleton_self _⟩))
  exact ⟨_, bind_eq_ok.mpr ⟨_, hv, bind_eq_ok.mpr ⟨next, hnext, rfl⟩⟩⟩

theorem exists_landing_entry {r : ChoiceRecord} (hr : r ∈ p.choices) {b : ChoiceBranch}
    (hb : b ∈ r.branches) : ∃ x, p.landing b.entry = .ok x := by
  apply y.exists_landing_of_aims
  exact .inr (.inl ⟨.choice r, hr, List.mem_cons_of_mem _ (List.mem_map_of_mem hb)⟩)

/-- Of all steps, only a choice that is observed can be without items. -/
theorem settles_choiceItems {r : ChoiceRecord} (hr : r ∈ p.choices) :
    Settles (choiceItems p r) (r.role = .observer → ToldApart r [] r.branches) ApiError.OfNames := by
  unfold choiceItems
  cases hrole : r.role with
  | chooser =>
    have hmethods : ∃ methods, r.branches.mapM (chooserMethod p (signalsTell r.branches)) =
        .ok methods := by
      refine exists_mapM_eq_ok fun b hb => ?_
      obtain ⟨x, hx⟩ := y.exists_landing_entry hr hb
      exact ⟨_, bind_eq_ok.mpr ⟨x, hx, rfl⟩⟩
    obtain ⟨methods, hmethods⟩ := hmethods
    have hitems : chooserItems p r = .ok _ := bind_eq_ok.mpr ⟨methods, hmethods, rfl⟩
    exact (Settles.of_ok hitems).congr (by simp)
  | observer =>
    obtain ⟨landings, hlandings⟩ := exists_mapM_eq_ok fun b hb => y.exists_landing_entry hr hb
    have hlabels := settles_observedLabels r r.branches
    have hitems : Settles (observerItems p r) (ToldApart r [] r.branches) ApiError.OfNames := by
      apply hlabels.bind_done
      intro labels _
      exact ⟨_, bind_eq_ok.mpr ⟨landings, hlandings, rfl⟩⟩
    exact hitems.congr (by simp)

theorem exists_parItems {r : ParRecord} (hr : r ∈ p.pars) : ∃ items, parItems p r = .ok items := by
  have hbranches : ∃ landings, r.branches.mapM p.landing = .ok landings := by
    apply exists_mapM_eq_ok
    intro t ht
    exact y.exists_landing_of_aims (.inr (.inr ⟨r, hr, ht⟩))
  obtain ⟨landings, hlandings⟩ := hbranches
  obtain ⟨next, hnext⟩ := y.exists_landing_of_aims (t := r.next)
    (.inr (.inl ⟨.par r, hr, List.mem_singleton_self _⟩))
  exact ⟨_, bind_eq_ok.mpr ⟨landings, hlandings, bind_eq_ok.mpr ⟨next, hnext, rfl⟩⟩⟩

theorem exists_loopItems {r : LoopRecord} (hr : r ∈ p.loops) :
    ∃ items, loopItems p r = .ok items := by
  obtain ⟨exit, hexit⟩ := y.exists_landing_of_aims (t := r.next)
    (.inr (.inl ⟨.loop r, hr, List.mem_singleton_self _⟩))
  obtain ⟨ways, hways, _⟩ := y.exists_waysOut r exit.typeName
  obtain ⟨_, _, hitems, _⟩ := Api.exists_loopItems hexit hways
  exact ⟨_, hitems⟩

theorem settles_roleItems {vs : List Variant} (hvs : variants [p] = .ok vs) :
    Settles (roleItems p vs)
      (∀ r ∈ p.choices, r.role = .observer → ToldApart r [] r.branches) ApiError.OfNames := by
  obtain ⟨start, hstart⟩ := y.exists_landing_of_aims (.inl rfl)
  obtain ⟨messages, hmessages⟩ := exists_mapM_eq_ok fun r hr => y.exists_messageItems hvs (r := r) hr
  obtain ⟨pars, hpars⟩ := exists_mapM_eq_ok fun r hr => y.exists_parItems (r := r) hr
  obtain ⟨loops, hloops⟩ := exists_mapM_eq_ok fun r hr => y.exists_loopItems (r := r) hr
  apply Settles.bind_ok hstart
  apply Settles.bind_ok hmessages
  apply (Settles.mapM fun r hr => y.settles_choiceItems hr).bind_done
  intro choices _
  exact ⟨_, bind_eq_ok.mpr ⟨pars, hpars, bind_eq_ok.mpr ⟨loops, hloops, rfl⟩⟩⟩

theorem settles_single (o : Options) :
    Settles (single o p) (Nameable o p) ApiError.OfNames := by
  have hsingle : Settles (single o p) _ ApiError.OfNames :=
    (settles_variants p).bind fun vs hvs => (y.settles_roleItems hvs).bind fun items _ =>
      settles_assemble o _ _
  refine hsingle.congr ?_
  constructor
  · intro h
    obtain ⟨hvariants, hobserved, hname⟩ := h
    exact ⟨hvariants, hobserved, fun hinline => isModuleName_iff.mp (hname hinline)⟩
  · intro h
    exact ⟨h.variants, h.observed, fun hinline => isModuleName_iff.mpr (h.moduleName hinline)⟩

end LocalProtocol.Yields

/-- How generating the source of a role from its projection turns out. -/
structure Projection.Sourced (p : Projection) (o : Api.Options) : Prop where
  landed : ∀ t, p.Aims t → ∃ x, p.landing t = .ok x
  accepted : (∃ source, generateSingle o p = .ok source) ↔ Api.Nameable o p
  failed : ∀ e, generateSingle o p = .error e → e.kind = .source ∧
    ∃ cause, e = .source cause ∧ cause.OfNames
  loops : ∀ label, generateSingle o p ≠ .error (.source (.noLoop label))
  variants : ∀ message, generateSingle o p ≠ .error (.source (.noVariant message))

/-- A projection has a source just if its names allow for one; no loop and no variant is ever
missed. -/
theorem LocalProtocol.sourced_of_project {l : LocalProtocol} {moduleName? : Option String}
    {types : List TypeImport} {p : Projection} (h : l.project moduleName? types = .ok p)
    (o : Api.Options) : p.Sourced o := by
  have y := yields_of_project_eq_ok h
  have hsettles := y.settles_single o
  have hknown {cause : ApiError} (he : generateSingle o p = .error (.source cause)) :
      cause.OfNames := by
    obtain ⟨cause', hcause, hsource⟩ := mapError_eq_error.mp he
    obtain rfl := CompileError.source.inj hsource
    exact hsettles.known_of_eq_error hcause
  refine ⟨fun t ht => y.exists_landing_of_aims ht, ?_, ?_, ?_, ?_⟩
  · unfold generateSingle
    simp only [mapError_eq_ok]
    exact hsettles.exists_ok_iff
  · intro e he
    obtain ⟨cause, hcause, rfl⟩ := mapError_eq_error.mp he
    exact ⟨rfl, cause, rfl, hsettles.known_of_eq_error hcause⟩
  · intro label he
    exact hknown he
  · intro message he
    exact hknown he

/-- A stall at a market: bids of two kinds under one name, each answered in a branch of its own, until
the buyer leaves. -/
def stall : LocalProtocol where
  name := "Stall"
  protagonist := "Seller"
  roles := ["Seller", "Buyer", "Till"]
  conversation :=
    [.loop ⟨"Seller", "rec", 0⟩ "Day"
      [.choice ⟨"Seller", "choice", 1⟩ "Buyer"
        [[.message ⟨⟨"Seller", "step", 2⟩, "bid", "Buyer", "Seller", ["u32"]⟩,
          .par ⟨"Seller", "par", 3⟩
            [[.message ⟨⟨"Seller", "step", 4⟩, "bid", "Seller", "Till", ["u32", "String"]⟩],
             [.message ⟨⟨"Seller", "step", 5⟩, "wrap", "Seller", "Buyer", []⟩]],
          .jump ⟨"Seller", "continue", 6⟩ "Day"],
         [.message ⟨⟨"Seller", "step", 7⟩, "leave", "Buyer", "Seller", []⟩]]]]

/-- The stall has a source, but not under a name that begins with a digit. -/
theorem stall_sourced : ∃ p, stall.project none [] = .ok p ∧
    (p.Sourced ⟨"market", true⟩ ∧ Api.Nameable ⟨"market", true⟩ p) ∧
    (p.Sourced ⟨"1st", true⟩ ∧ ¬ Api.Nameable ⟨"1st", true⟩ p) := by
  have hok : ((stall.project none []).toOption.any fun p =>
      (generateSingle ⟨"market", true⟩ p).toBool && !(generateSingle ⟨"1st", true⟩ p).toBool) =
        true := by
    decide +kernel
  obtain ⟨p, hp, hok⟩ := exists_ok_of_any hok
  obtain ⟨hmarket, hfirst⟩ := Bool.and_eq_true_iff.mp hok
  have named := LocalProtocol.sourced_of_project hp ⟨"market", true⟩
  have unnamed := LocalProtocol.sourced_of_project hp ⟨"1st", true⟩
  refine ⟨p, hp, ⟨named, named.accepted.mp (exists_ok_of_toBool hmarket)⟩, unnamed, ?_⟩
  intro hname
  obtain ⟨source, hsource⟩ := unnamed.accepted.mpr hname
  rw [hsource] at hfirst
  cases hfirst

end Parley
