import Parley.Proofs.Checked
import Parley.Proofs.Spelling
import Parley.Proofs.Variant

/-! Whether the names in a source are names of the target language. They come from identifiers, but no
message has to have a letter in it, and reserved words are kept out of the names of submodules only,
and not even there if they are kept for later use. So it takes a condition on the protocol. -/

namespace Parley

open Outcome

namespace Api

open Text

/-! ### Names of variants -/

/-- What the name of a variant is made from: the label, and the payloads too where messages share the
label. -/
def Key.spelling (all : List Key) (k : Key) : String :=
  if (all.filter (·.label == k.label)).length > 1 then
    if k.payloads.isEmpty then k.label ++ "_Empty" else "_".intercalate (k.label :: k.payloads)
  else k.label

theorem pascalChars_underscore (first : Bool) (cs ds : List Char) :
    pascalChars first (cs ++ '_' :: ds) = pascalChars first cs ++ pascalChars true ds := by
  induction cs generalizing first with
  | nil => rfl
  | cons c cs ih =>
    rw [List.cons_append, pascalChars, pascalChars]
    by_cases hc : c = '_'
    · rw [if_pos hc, if_pos hc, ih]
    · rw [if_neg hc, if_neg hc, ih, List.append_assoc]

theorem pascalCase_underscore (s t : String) :
    pascalCase (s ++ "_" ++ t) = pascalCase s ++ pascalCase t := by
  apply String.toList_injective
  simp [pascalCase, pascalChars_underscore]

theorem pascalCase_intercalate (s : String) (ts : List String) :
    pascalCase ("_".intercalate (s :: ts)) = pascalCase s ++ String.join (ts.map pascalCase) := by
  induction ts generalizing s with
  | nil => simp
  | cons t ts ih =>
    rw [String.intercalate_cons_cons, pascalCase_underscore, ih]
    simp

theorem Key.variantName_eq (all : List Key) (k : Key) :
    k.variantName all = pascalCase (k.spelling all) := by
  unfold Key.variantName Key.spelling
  split
  · split
    · have hempty : pascalCase "Empty" = "Empty" := by decide +kernel
      have htext : k.label ++ "_Empty" = k.label ++ "_" ++ "Empty" := by
        rw [String.append_assoc]
        rfl
      rw [htext, pascalCase_underscore, hempty]
    · rw [pascalCase_intercalate]
  · rfl

theorem Key.parts_spelling {k : Key} (hlabel : Grammar.isIdentifier k.label = true)
    (hpayloads : ∀ type ∈ k.payloads, Grammar.isIdentifier type = true) (all : List Key) :
    Parts (k.spelling all).toList := by
  have hparts := parts_of_isIdentifier hlabel
  unfold Key.spelling
  split
  · split
    · rw [String.toList_append, parts_append]
      exact ⟨hparts, by decide⟩
    · intro c hc
      rw [String.toList_intercalate, List.intercalate] at hc
      obtain ⟨piece, hpiece, hc⟩ := List.mem_flatten.mp hc
      rcases Grammar.mem_of_mem_intersperse hpiece with hpiece | rfl
      · obtain ⟨word, hword, rfl⟩ := List.mem_map.mp hpiece
        rcases List.mem_cons.mp hword with rfl | hword
        · exact hparts c hc
        · exact parts_of_isIdentifier (hpayloads word hword) c hc
      · exact .inr (by simpa using hc)
  · exact hparts

/-! ### What a source gives names to -/

/-- The names that the source of some projections gives, each with how its line begins: those of the
variants, of the branches that are observed, of the imported types and of the submodules. -/
inductive Gives (ps : List Projection) : String → String → Prop where
  | variant {vs : List Variant} {v : Variant} : variants ps = .ok vs → v ∈ vs →
      Gives ps v.name (v.name ++ if v.key.payloads.isEmpty then "," else "(")
  | branch {p : Projection} {r : ChoiceRecord} {labels : List String} {label : String} : p ∈ ps →
      r ∈ p.choices → r.role = .observer → observedLabels r [] r.branches = .ok labels →
      label ∈ labels → Gives ps (pascalCase label) (pascalCase label ++ "(")
  | type {name : String} {t : TypeImport} : (name, t) ∈ aliased [] (ps.flatMap (·.types)) →
      Gives ps name (aliasItem name)
  | module {p : Projection} : ps.length ≠ 1 → p ∈ ps → Gives ps (roleModule p) (moduleLine p)

/-- What is asked of the words of a protocol if all names in its source are to be names. -/
@[mk_iff] structure WellNamed (ps : List Projection) : Prop where
  variants : ∀ k ∈ keys ps, WellSpelled (k.spelling (keys ps))
  branches : ∀ p ∈ ps, ∀ r ∈ p.choices, r.role = .observer → ∀ b ∈ r.branches,
    ∀ s ∈ b.signal?, WellSpelled s.label
  types : ∀ p ∈ ps, ∀ t ∈ p.types, ∀ name ∈ t.alias?, name ≠ "_" ∧ name ∉ keywords
  modules : ps.length ≠ 1 → ∀ p ∈ ps, p.protagonist ≠ "_" ∧ snakeCase p.protagonist ∉ futureWords

instance (ps : List Projection) : Decidable (WellNamed ps) :=
  decidable_of_iff _ (wellNamed_iff ps).symm

theorem mem_of_mem_aliased {types : List TypeImport} {seen : List String} {name : String}
    {t : TypeImport} (h : (name, t) ∈ aliased seen types) : t ∈ types ∧ t.alias? = some name := by
  fun_induction aliased seen types with
  | case1 => cases h
  | case2 seen u types _ ih =>
    obtain ⟨ht, hname⟩ := ih h
    exact ⟨List.mem_cons_of_mem u ht, hname⟩
  | case3 seen u types other _ _ ih =>
    obtain ⟨ht, hname⟩ := ih h
    exact ⟨List.mem_cons_of_mem u ht, hname⟩
  | case4 seen u types other hother _ ih =>
    rcases List.mem_cons.mp h with he | h
    · cases he
      exact ⟨List.mem_cons_self, hother⟩
    · obtain ⟨ht, hname⟩ := ih h
      exact ⟨List.mem_cons_of_mem u ht, hname⟩

/-! ### How the lines of these begin -/

/-- A line in a block begins like the line it is made from. -/
theorem opens_block {title line : String} {lines : List String} (hline : line ∈ lines)
    {head : String} (hne : head.toList ≠ []) (h : head.toList <+: line.toList) :
    Text.Opens ((block title lines).map String.toList) head.toList := by
  have hfull : line ≠ "" := by
    rintro rfl
    exact hne (List.prefix_nil.mp h)
  have hpad : (pad line).toList = List.replicate 4 ' ' ++ line.toList := by
    simp [pad, hfull]
  refine ⟨_, List.mem_map_of_mem (pad_mem_block hline), 4, ?_⟩
  rw [hpad]
  exact (List.prefix_append_right_inj _).mpr h

section Heads

variable {ps : List Projection} {vs : List Variant} {source : String}
  (outline : Outline ps vs source)

include outline

theorem Outline.opens_variant {v : Variant} (hv : v ∈ vs) (hname : '\n' ∉ v.name.toList) :
    Opens source (v.name ++ if v.key.payloads.isEmpty then "," else "(") := by
  have hmark : Text.IsLine (if v.key.payloads.isEmpty then "," else "(").toList := by
    split
    · exact ⟨by decide, by decide, by decide⟩
    · exact ⟨by decide, by decide, by decide⟩
  have hshows := outline.messages _ List.mem_cons_self
  apply hshows
  · rw [String.toList_append]
    exact hmark.append hname
  · rw [List.map_append]
    refine (opens_block (List.mem_map_of_mem hv) ?_ ?_).mono (List.subset_append_right _ _)
    · rw [String.toList_append]
      exact List.append_ne_nil_of_right_ne_nil _ hmark.ne_nil
    · unfold Variant.declaration
      split
      · exact List.prefix_rfl
      · simp

theorem Outline.opens_type {name : String} {t : TypeImport}
    (h : (name, t) ∈ aliased [] (ps.flatMap (·.types)))
    (hname : Grammar.isIdentifier name = true) : Opens source (aliasItem name) := by
  obtain ⟨ht, halias⟩ := mem_of_mem_aliased h
  obtain ⟨paragraph, hp, hitem⟩ := exists_aliasItem ht halias
  exact (outline.aliases paragraph hp).opens hitem (isLine_aliasItem hname)

theorem Outline.opens_module (hlength : ps.length ≠ 1) {p : Projection} (hp : p ∈ ps)
    (hname : '\n' ∉ (roleModule p).toList) : Opens source (moduleLine p) := by
  apply (outline.modules hlength p hp).opens (List.mem_singleton_self _)
  exact isLine_around (by decide) hname ⟨by decide, by decide, by decide⟩

theorem Outline.opens_branch {p : Projection} (hp : p ∈ ps) {r : ChoiceRecord} (hr : r ∈ p.choices)
    (hrole : r.role = .observer) {labels : List String}
    (hlabels : observedLabels r [] r.branches = .ok labels) {label : String} (hlabel : label ∈ labels)
    (hname : '\n' ∉ (pascalCase label).toList) : Opens source (pascalCase label ++ "(") := by
  obtain ⟨items, hitems, hshows⟩ := outline.roles p hp
  obtain ⟨own, hown, hsub⟩ := (roleItems_eq_ok hitems).2.1 r hr
  rw [choiceItems, hrole] at hown
  obtain ⟨_, hlabels', hown⟩ := bind_eq_ok.mp hown
  obtain rfl := Except.ok.inj (hlabels.symm.trans hlabels')
  obtain ⟨landings, hlandings, hown⟩ := bind_eq_ok.mp hown
  have hcase : ∃ next, (label, next) ∈ labels.zip landings := by
    obtain ⟨signals, hall, rfl, _⟩ := signals_of_observedLabels hlabels
    have hlength : (signals.map (·.label)).length ≤ landings.length := by
      have hsignals := hall.length_eq
      have hbranches := length_of_mapM_eq_ok hlandings
      rw [List.length_map]
      omega
    rw [← List.map_fst_zip hlength] at hlabel
    obtain ⟨⟨_, next⟩, hmem, rfl⟩ := List.mem_map.mp hlabel
    exact ⟨next, hmem⟩
  obtain ⟨next, hcase⟩ := hcase
  have hmark : Text.IsLine "(".toList := ⟨by decide, by decide, by decide⟩
  have henum := hshows _ (hsub (pure_eq_ok.mp hown ▸ List.mem_cons_self))
  apply henum
  · rw [String.toList_append]
    exact hmark.append hname
  · rw [List.map_cons]
    refine (opens_block (List.mem_map_of_mem hcase) ?_ ?_).mono (List.subset_cons_self _ _)
    · rw [String.toList_append]
      exact List.append_ne_nil_of_right_ne_nil _ hmark.ne_nil
    · simp

end Heads

/-! ### When the names are names -/

section Lettered

variable {ps : List Projection} (hps : ∀ p ∈ ps, p.Lettered)

include hps

theorem parts_spelling {k : Key} (hk : k ∈ keys ps) : Parts (k.spelling (keys ps)).toList := by
  obtain ⟨p, hp, m, hm, rfl⟩ := mem_keys.mp hk
  exact Key.parts_spelling ((hps p hp).labels m hm) ((hps p hp).payloads m hm) _

theorem parts_variants {vs : List Variant} (h : variants ps = .ok vs) :
    ∀ v ∈ vs, Parts v.name.toList := by
  obtain ⟨_, rfl⟩ := variants_eq_ok.mp h
  intro v hv c hc
  obtain ⟨k, hk, rfl⟩ := List.mem_map.mp hv
  rw [Variant.ofKey, Key.variantName_eq] at hc
  exact .inl (isAlphanum_of_mem_pascalCase (parts_spelling hps hk) c hc)

theorem isIdentifier_of_mem_aliased {name : String} {t : TypeImport}
    (h : (name, t) ∈ aliased [] (ps.flatMap (·.types))) : Grammar.isIdentifier name = true := by
  obtain ⟨ht, halias⟩ := mem_of_mem_aliased h
  obtain ⟨p, hp, ht⟩ := List.mem_flatMap.mp ht
  exact (hps p hp).aliases t ht name halias

/-- The labels by which branches are told apart are those of their signals. -/
theorem exists_signal {p : Projection} (hp : p ∈ ps) {r : ChoiceRecord} (hr : r ∈ p.choices)
    {labels : List String} (hlabels : observedLabels r [] r.branches = .ok labels) {label : String}
    (hlabel : label ∈ labels) : Grammar.isIdentifier label = true ∧
      ∃ b ∈ r.branches, ∃ s, b.signal? = some s ∧ s.label = label := by
  obtain ⟨signals, hall, rfl, _⟩ := signals_of_observedLabels hlabels
  obtain ⟨s, hs, rfl⟩ := List.mem_map.mp hlabel
  obtain ⟨b, hb, hbegins⟩ := exists_left_of_forall₂ hall hs
  exact ⟨(hps p hp).signals r hr b hb s hbegins.1, b, hb, s, hbegins.1, rfl⟩

theorem newline_not_mem_of_gives {name head : String} (h : Gives ps name head) :
    '\n' ∉ name.toList := by
  apply Parts.newline_not_mem
  cases h with
  | variant hvs hv => exact parts_variants hps hvs _ hv
  | branch hp hr _ hlabels hlabel =>
    obtain ⟨hid, _⟩ := exists_signal hps hp hr hlabels hlabel
    intro c hc
    exact .inl (isAlphanum_of_mem_pascalCase (parts_of_isIdentifier hid) c hc)
  | type h => exact parts_of_isIdentifier (isIdentifier_of_mem_aliased hps h)
  | module _ hp =>
    have hid := isIdentifier_snakeCase (hps _ hp).protagonist
    exact parts_of_isIdentifier (isIdentifier_unreserved hid)

theorem Outline.opens_of_gives {vs : List Variant} {source : String} (outline : Outline ps vs source)
    (hvs : variants ps = .ok vs) {name head : String} (h : Gives ps name head) :
    Opens source head := by
  have hname := newline_not_mem_of_gives hps h
  cases h with
  | variant hvs' hv =>
    obtain rfl := Except.ok.inj (hvs.symm.trans hvs')
    exact outline.opens_variant hv hname
  | branch hp hr hrole hlabels hlabel =>
    exact outline.opens_branch hp hr hrole hlabels hlabel hname
  | type h => exact outline.opens_type h (isIdentifier_of_mem_aliased hps h)
  | module hlength hp => exact outline.opens_module hlength hp hname

theorem isName_variant_iff {k : Key} (hk : k ∈ keys ps) :
    IsName (k.variantName (keys ps)) ↔ WellSpelled (k.spelling (keys ps)) := by
  rw [Key.variantName_eq]
  exact isName_pascalCase_iff (parts_spelling hps hk)

theorem isName_module_iff {p : Projection} (hp : p ∈ ps) : IsName (roleModule p) ↔
    p.protagonist ≠ "_" ∧ snakeCase p.protagonist ∉ futureWords :=
  isName_unreserved_snakeCase_iff (hps p hp).protagonist

theorem WellNamed.isName_of_gives (hnamed : WellNamed ps) {name head : String}
    (h : Gives ps name head) : IsName name := by
  cases h with
  | variant hvs hv =>
    obtain ⟨_, rfl⟩ := variants_eq_ok.mp hvs
    obtain ⟨k, hk, rfl⟩ := List.mem_map.mp hv
    exact (isName_variant_iff hps hk).mpr (hnamed.variants k hk)
  | branch hp hr hrole hlabels hlabel =>
    obtain ⟨hid, b, hb, s, hs, rfl⟩ := exists_signal hps hp hr hlabels hlabel
    apply (isName_pascalCase_iff (parts_of_isIdentifier hid)).mpr
    exact hnamed.branches _ hp _ hr hrole b hb s hs
  | type h =>
    have hid := isIdentifier_of_mem_aliased hps h
    obtain ⟨ht, halias⟩ := mem_of_mem_aliased h
    obtain ⟨p, hp, ht⟩ := List.mem_flatMap.mp ht
    obtain ⟨hne, hkeyword⟩ := hnamed.types p hp _ ht name halias
    exact ⟨hid, hne, hkeyword⟩
  | module hlength hp => exact (isName_module_iff hps hp).mpr (hnamed.modules hlength _ hp)

theorem Outline.wellNamed {vs : List Variant} {source : String} (outline : Outline ps vs source)
    (hvs : variants ps = .ok vs) (h : ∀ name head, Gives ps name head → IsName name) :
    WellNamed ps := by
  obtain ⟨_, hkeys⟩ := variants_eq_ok.mp hvs
  constructor
  · intro k hk
    apply (isName_variant_iff hps hk).mp
    exact h _ _ (.variant hvs (hkeys ▸ List.mem_map_of_mem hk))
  · intro p hp r hr hrole b hb s hs
    obtain ⟨items, hitems, _⟩ := outline.roles p hp
    obtain ⟨labels, hlabels⟩ := exists_observedLabels_of_roleItems hitems hr hrole
    obtain ⟨signals, hall, rfl, _⟩ := signals_of_observedLabels hlabels
    obtain ⟨s', hmem, hbegins⟩ := exists_right_of_forall₂ hall hb
    obtain rfl := Option.some.inj (hbegins.1.symm.trans hs)
    have hid := (hps p hp).signals r hr b hb s' hs
    apply (isName_pascalCase_iff (parts_of_isIdentifier hid)).mp
    exact h _ _ (.branch hp hr hrole hlabels (List.mem_map_of_mem hmem))
  · intro p hp t ht name halias
    obtain ⟨u, hu⟩ := exists_aliased (List.mem_flatMap.mpr ⟨p, hp, ht⟩) halias List.not_mem_nil
    have hname := h _ _ (.type hu)
    exact ⟨hname.ne_underscore, hname.not_keyword⟩
  · intro hlength p hp
    exact (isName_module_iff hps hp).mp (h _ _ (.module hlength hp))

end Lettered

end Api

/-- The names in a source stand where its lines say, and are names just if the words of the protocol
allow for it. -/
theorem legible_iff_wellNamed {concurrent : Bool} {o : Api.Options}
    {texts : List (Except FileError String)} {source : String}
    (h : generate concurrent o texts = .ok source) :
    ∃ ps, compileTexts concurrent texts = .ok ps ∧
      (∀ name head, Api.Gives ps name head → Api.Opens source head) ∧
      ((∀ name head, Api.Gives ps name head → Api.IsName name) ↔ Api.WellNamed ps) := by
  obtain ⟨_, ps, hps, hsource⟩ := generate_eq_ok.mp h
  obtain ⟨vs, hvs, outline⟩ := Api.exists_outline hsource
  have hlettered := lettered_of_compileTexts hps
  refine ⟨ps, hps, ?_, ?_⟩
  · intro name head hgives
    exact outline.opens_of_gives hlettered hvs hgives
  · constructor
    · intro hnames
      exact outline.wellNamed hlettered hvs hnames
    · intro hnamed name head hgives
      exact hnamed.isName_of_gives hlettered hgives

/-- A load that is hauled away, with words that are reserved where they do no harm. -/
def haulText : String :=
  "type <json> \"Crate\" from \"crate.json\" as Crate;
  local protocol Haul at Move (role Move, role Yard) \x7b
    choice at Yard \x7b load(Crate) from Yard; \x7d or \x7b _stop() from Yard; \x7d
    self(int) to Yard; self() to Yard;
  \x7d
  local protocol Haul at Yard (role Move, role Yard) \x7b
    choice at Yard \x7b load(Crate) to Move; \x7d or \x7b _stop() to Move; \x7d
    self(int) from Move; self() from Move;
  \x7d"

theorem haulText_legible : ∃ source ps, generate true {} [.ok haulText] = .ok source ∧
    compileTexts true [.ok haulText] = .ok ps ∧ Api.WellNamed ps ∧
    ∀ name head, Api.Gives ps name head → Api.Opens source head ∧ Api.IsName name := by
  have hok : ((compile true haulText).toOption.any fun c =>
      (Api.sourceOf {} c.projections).toBool &&
        decide (Api.WellNamed c.projections)) = true := by
    unfold compile Protocol.parse haulText
    rw [Token.scan_ofList]
    decide +kernel
  obtain ⟨c, hc, hok⟩ := exists_ok_of_any hok
  obtain ⟨hsource, hnamed⟩ := Bool.and_eq_true_iff.mp hok
  obtain ⟨source, hsource⟩ := exists_ok_of_toBool hsource
  have hps := compileTexts_singleton hc
  have hgenerate := generate_eq_ok.mpr ⟨List.cons_ne_nil _ _, _, hps, hsource⟩
  obtain ⟨ps, hps', hopens, hnames⟩ := legible_iff_wellNamed hgenerate
  obtain rfl := Except.ok.inj (hps.symm.trans hps')
  have hwell := of_decide_eq_true hnamed
  refine ⟨source, _, hgenerate, hps, hwell, ?_⟩
  intro name head hgives
  exact ⟨hopens name head hgives, hnames.mpr hwell name head hgives⟩

/-- A message to oneself, or so its name says. -/
def murmurText : String :=
  "local protocol Murmur at Ann (role Ann, role Bob) \x7b self() to Bob; \x7d"

/-- The variant of a message may have a name that is reserved. -/
theorem murmurText_not_legible : ∃ source ps head, generate false {} [.ok murmurText] = .ok source ∧
    compileTexts false [.ok murmurText] = .ok ps ∧ Api.Gives ps "Self" head ∧
    Api.Opens source head ∧ ¬ Api.IsName "Self" := by
  have hok : ((compile false murmurText).toOption.any fun c =>
      (Api.sourceOf {} c.projections).toBool &&
        (Api.variants c.projections).toOption.any fun vs =>
          vs.any (·.name == "Self")) = true := by
    unfold compile Protocol.parse murmurText
    rw [Token.scan_ofList]
    decide +kernel
  obtain ⟨c, hc, hok⟩ := exists_ok_of_any hok
  obtain ⟨hsource, hok⟩ := Bool.and_eq_true_iff.mp hok
  obtain ⟨source, hsource⟩ := exists_ok_of_toBool hsource
  obtain ⟨vs, hvs, hany⟩ := exists_ok_of_any hok
  obtain ⟨v, hv, hname⟩ := List.any_eq_true.mp hany
  have hps := compileTexts_singleton hc
  have hgives := Api.Gives.variant hvs hv
  rw [eq_of_beq hname] at hgives
  obtain ⟨vs', hvs', outline⟩ := Api.exists_outline hsource
  refine ⟨source, _, _, generate_eq_ok.mpr ⟨List.cons_ne_nil _ _, _, hps, hsource⟩, hps, hgives,
    outline.opens_of_gives (lettered_of_compileTexts hps) hvs' hgives, ?_⟩
  intro hself
  exact hself.not_keyword (by decide +kernel)

end Parley
