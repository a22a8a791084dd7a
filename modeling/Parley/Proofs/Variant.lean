import Mathlib.Data.List.Perm.Basic
import Parley.Proofs.Item
import Parley.Proofs.Outcome

/-! The variants of the message type. Each key has one variant, and its name looks at the other keys only
to see whether one of them has the same label. So the order in which the roles list their messages is
not seen in the names. -/

namespace Parley.Api

open Outcome

def Variant.ofKey (all : List Key) (k : Key) : Variant := ⟨k, k.variantName all⟩

/-- Naming goes through just if no name comes up twice. -/
theorem nameVariants_cases (all : List Key) (before : List Variant) (ks : List Key)
    (hbefore : (before.map (·.name)).Nodup) :
    ((before.map (·.name) ++ ks.map (·.variantName all)).Nodup ∧
      nameVariants all before ks = .ok (before ++ ks.map (Variant.ofKey all))) ∨
    (¬ (before.map (·.name) ++ ks.map (·.variantName all)).Nodup ∧
      ∃ first second variant, nameVariants all before ks =
        .error (.variantClash first second variant)) := by
  induction ks generalizing before with
  | nil =>
    refine .inl ⟨?_, ?_⟩
    · rwa [List.map_nil, List.append_nil]
    · rw [nameVariants, List.map_nil, List.append_nil]
  | cons k ks ih =>
    rw [nameVariants]
    cases hfound : before.find? (·.name == k.variantName all) with
    | some v =>
      have hmem := List.mem_of_find?_eq_some hfound
      have hname : v.name = k.variantName all := by simpa using List.find?_some hfound
      refine .inr ⟨?_, _, _, _, rfl⟩
      intro hnodup
      have hdisjoint := List.disjoint_of_nodup_append hnodup
      exact hdisjoint (List.mem_map.mpr ⟨v, hmem, hname⟩) List.mem_cons_self
    | none =>
      have hfresh : k.variantName all ∉ before.map (·.name) := by
        intro hmem
        obtain ⟨v, hv, hname⟩ := List.mem_map.mp hmem
        have hne := List.find?_eq_none.mp hfound v hv
        simp [hname] at hne
      have hnext : ((before ++ [Variant.ofKey all k]).map (·.name)).Nodup := by
        rw [List.map_append]
        exact hbefore.append (List.nodup_singleton _) (List.disjoint_singleton.mpr hfresh)
      have hcases := ih (before ++ [Variant.ofKey all k]) hnext
      rw [List.map_append, List.append_assoc, List.append_assoc] at hcases
      exact hcases

theorem mem_keys {ps : List Projection} {k : Key} :
    k ∈ keys ps ↔ ∃ p ∈ ps, ∃ m ∈ p.messages, Key.ofRecord m = k := by
  unfold keys
  rw [List.mem_eraseDups, List.mem_flatMap]
  simp only [List.mem_map]

theorem keys_nodup (ps : List Projection) : (keys ps).Nodup := nodup_eraseDups _

theorem variants_cases (ps : List Projection) :
    (((keys ps).map (·.variantName (keys ps))).Nodup ∧
      variants ps = .ok ((keys ps).map (Variant.ofKey (keys ps)))) ∨
    (¬ ((keys ps).map (·.variantName (keys ps))).Nodup ∧
      ∃ first second variant, variants ps = .error (.variantClash first second variant)) :=
  nameVariants_cases (keys ps) [] (keys ps) List.nodup_nil

theorem variants_eq_ok {ps : List Projection} {vs : List Variant} : variants ps = .ok vs ↔
    ((keys ps).map (·.variantName (keys ps))).Nodup ∧
      vs = (keys ps).map (Variant.ofKey (keys ps)) := by
  rcases variants_cases ps with ⟨hnodup, hok⟩ | ⟨hclash, first, second, variant, herror⟩
  · rw [hok]
    constructor
    · intro h
      exact ⟨hnodup, (Except.ok.inj h).symm⟩
    · intro h
      rw [h.2]
  · rw [herror]
    constructor
    · intro h
      cases h
    · intro h
      exact absurd h.1 hclash

/-- A message finds the variant of its own key, and nothing else. -/
theorem variantOf_map_ofKey (all ks : List Key) (r : MessageRecord) :
    variantOf (ks.map (Variant.ofKey all)) r =
      if Key.ofRecord r ∈ ks then .ok (Variant.ofKey all (Key.ofRecord r))
      else .error (.noVariant r.message.name) := by
  unfold variantOf
  cases hfound : (ks.map (Variant.ofKey all)).find? (·.key == Key.ofRecord r) with
  | some v =>
    obtain ⟨k, hk, rfl⟩ := List.mem_map.mp (List.mem_of_find?_eq_some hfound)
    have hkey : k = Key.ofRecord r := by simpa [Variant.ofKey] using List.find?_some hfound
    rw [hkey] at hk ⊢
    rw [if_pos hk]
  | none =>
    have hmem : Key.ofRecord r ∉ ks := by
      intro hk
      have hne := List.find?_eq_none.mp hfound _ (List.mem_map_of_mem hk)
      simp [Variant.ofKey] at hne
    rw [if_neg hmem]

theorem variantOf_of_variants {ps : List Projection} {vs : List Variant} (hvs : variants ps = .ok vs)
    {p : Projection} (hp : p ∈ ps) {m : MessageRecord} (hm : m ∈ p.messages) :
    variantOf vs m = .ok (Variant.ofKey (keys ps) (Key.ofRecord m)) := by
  obtain ⟨_, rfl⟩ := variants_eq_ok.mp hvs
  rw [variantOf_map_ofKey, if_pos (mem_keys.mpr ⟨p, hp, m, hm, rfl⟩)]

/-! ### Order -/

theorem Key.variantName_perm {all all' : List Key} (h : all'.Perm all) (k : Key) :
    k.variantName all' = k.variantName all := by
  have hlength : (all'.filter (·.label == k.label)).length = (all.filter (·.label == k.label)).length :=
    (h.filter _).length_eq
  unfold Key.variantName
  rw [hlength]

theorem keys_perm {ps ps' : List Projection} (h : ps'.Perm ps) : (keys ps').Perm (keys ps) := by
  refine (List.perm_ext_iff_of_nodup (keys_nodup ps') (keys_nodup ps)).mpr ?_
  intro k
  simp only [mem_keys, h.mem_iff]

theorem variants_perm {ps ps' : List Projection} (h : ps'.Perm ps) {vs : List Variant}
    (hvs : variants ps = .ok vs) :
    ∃ vs', variants ps' = .ok vs' ∧ ∀ r, variantOf vs' r = variantOf vs r := by
  obtain ⟨hnodup, rfl⟩ := variants_eq_ok.mp hvs
  have hkeys := keys_perm h
  have hname : Key.variantName (keys ps') = Key.variantName (keys ps) :=
    funext (Key.variantName_perm hkeys)
  refine ⟨_, variants_eq_ok.mpr ⟨?_, rfl⟩, ?_⟩
  · rw [hname]
    exact (hkeys.map _).nodup_iff.mpr hnodup
  · intro r
    rw [variantOf_map_ofKey, variantOf_map_ofKey]
    simp only [hkeys.mem_iff, Variant.ofKey, hname]

/-- Variants that name the messages of some projections: each message has a variant that carries what
the message does, no two kinds of message go by one name, and the order of the projections is not
seen. -/
structure Faithful (ps : List Projection) (vs : List Variant) : Prop where
  found : ∀ p ∈ ps, ∀ r ∈ p.messages, ∃ v ∈ vs, variantOf vs r = .ok v ∧
    v.key.label = r.message.name ∧ v.key.payloads = r.message.payloads
  apart : ∀ p ∈ ps, ∀ r ∈ p.messages, ∀ p' ∈ ps, ∀ r' ∈ p'.messages, ∀ v v',
    variantOf vs r = .ok v → variantOf vs r' = .ok v' →
      (v.name = v'.name ↔
        r.message.name = r'.message.name ∧ r.message.payloads = r'.message.payloads)
  reordered : ∀ ps' : List Projection, ps'.Perm ps →
    ∃ vs', variants ps' = .ok vs' ∧ ∀ r, variantOf vs' r = variantOf vs r

theorem Key.ofRecord_eq_iff {r r' : MessageRecord} : Key.ofRecord r = Key.ofRecord r' ↔
    r.message.name = r'.message.name ∧ r.message.payloads = r'.message.payloads := by
  simp [Key.ofRecord]

/-- Whenever the messages of some projections can be named at all, they are named faithfully. -/
theorem faithful_of_variants {ps : List Projection} {vs : List Variant}
    (h : variants ps = .ok vs) : Faithful ps vs := by
  obtain ⟨hnodup, hvs⟩ := variants_eq_ok.mp h
  constructor
  · intro p hp r hr
    refine ⟨_, ?_, variantOf_of_variants h hp hr, rfl, rfl⟩
    rw [hvs]
    exact List.mem_map_of_mem (mem_keys.mpr ⟨p, hp, r, hr, rfl⟩)
  · intro p hp r hr p' hp' r' hr' v v' hv hv'
    obtain rfl := Except.ok.inj ((variantOf_of_variants h hp hr).symm.trans hv)
    obtain rfl := Except.ok.inj ((variantOf_of_variants h hp' hr').symm.trans hv')
    rw [← Key.ofRecord_eq_iff]
    constructor
    · intro hname
      exact List.inj_on_of_nodup_map hnodup (mem_keys.mpr ⟨p, hp, r, hr, rfl⟩)
        (mem_keys.mpr ⟨p', hp', r', hr', rfl⟩) hname
    · intro hkey
      rw [hkey]
  · intro ps' hperm
    exact variants_perm hperm h

/-- One who asks for a price, -/
def enquiry : LocalProtocol where
  name := "Price"
  protagonist := "Ann"
  roles := ["Ann", "Bob"]
  conversation :=
    [.message ⟨⟨"Price", "quote", 0⟩, "quote", "Ann", "Bob", []⟩,
     .message ⟨⟨"Price", "thank_you", 1⟩, "thank_you", "Ann", "Bob", []⟩]

/-- and one who gives it under the same name. -/
def quotation : LocalProtocol where
  name := "Price"
  protagonist := "Cleo"
  roles := ["Cleo", "Bob"]
  conversation := [.message ⟨⟨"Price", "quote", 0⟩, "quote", "Cleo", "Bob", ["int", "string"]⟩]

theorem enquiry_quotation_faithful : ∃ p q vs, enquiry.project none [] = .ok p ∧
    quotation.project none [] = .ok q ∧ variants [p, q] = .ok vs ∧
    vs.map (·.name) = ["QuoteEmpty", "ThankYou", "QuoteIntString"] ∧ Faithful [p, q] vs := by
  have hok : ((enquiry.project none []).toOption.any fun p =>
      (quotation.project none []).toOption.any fun q => (variants [p, q]).toOption.any fun vs =>
        vs.map (·.name) == ["QuoteEmpty", "ThankYou", "QuoteIntString"]) = true := by
    decide +kernel
  obtain ⟨p, hp, hok⟩ := exists_ok_of_any hok
  obtain ⟨q, hq, hok⟩ := exists_ok_of_any hok
  obtain ⟨vs, hvs, hnames⟩ := exists_ok_of_any hok
  exact ⟨p, q, vs, hp, hq, hvs, eq_of_beq hnames, faithful_of_variants hvs⟩

end Parley.Api
