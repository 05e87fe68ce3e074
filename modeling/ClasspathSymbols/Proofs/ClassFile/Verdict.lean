import ClasspathSymbols.Proofs.ClassFile.Pool
import ClasspathSymbols.Proofs.ClassFile.Skipping

/-! # The verdict on a class file

On the bytes of a well-formed class file the reader answers, and it answers by the attributes of
the class alone. What its fields and methods carry and what stands inside element values is passed
over. -/
namespace ClasspathSymbols.ClassFile

def mentions (texts : Texts) (descriptor : List UInt8) (list : List Annotation) : Bool :=
  list.any fun a => texts.lookup a.type.toNat = some descriptor

theorem someMentions_encode {texts : Texts} {descriptor : List UInt8} {list : List Annotation}
    (h : ∀ a ∈ list, a.Fits) (position : Nat) :
    someMentions texts descriptor list.length ⟨position, list.flatMap Annotation.encode⟩ =
      .ok (mentions texts descriptor list) := by
  induction list generalizing position with
  | nil => rfl
  | cons a list ih =>
    obtain ⟨hcount, hpairs⟩ := h a List.mem_cons_self
    rw [List.flatMap_cons, Annotation.encode, List.append_assoc, List.length_cons, someMentions,
      (reads_u2 a.type).feed, mentions, List.any_cons]
    by_cases ha : texts.lookup a.type.toNat = some descriptor
    · simp [ha]
    · simp only [ha, if_false, decide_false, Bool.false_or]
      rw [List.append_assoc, skipPairs_encode hcount hpairs]
      exact ih (fun b hb => h b (List.mem_cons_of_mem a hb)) _

theorem annotationsMention_encode {texts : Texts} {descriptor : List UInt8}
    {list : List Annotation} (hl : list.length < 2 ^ 16) (h : ∀ a ∈ list, a.Fits) :
    annotationsMention texts descriptor
      (encodeNumber 2 list.length ++ list.flatMap Annotation.encode) =
      .ok (mentions texts descriptor list) := by
  rw [annotationsMention, Cursor.start, (reads_count hl).feed]
  exact someMentions_encode h _

def ClassAttribute.settles (texts : Texts) (a : ClassAttribute) : Bool :=
  texts.lookup a.name.toNat = some deprecatedName || match a with
    | .annotations _ list => mentions texts deprecatedDescriptor list
    | .other _ => false

def ClassAttribute.Named (texts : Texts) : ClassAttribute → Prop
  | .annotations name list => texts.lookup name.toNat = some annotationsName ∧
      list.length < 2 ^ 16 ∧ ∀ a ∈ list, a.Fits
  | .other a => texts.lookup a.name.toNat ≠ some annotationsName

theorem annotationsName_ne : annotationsName ≠ deprecatedName := by decide

theorem attributeSettles_encode {texts : Texts} {a : ClassAttribute} (h : a.Named texts) :
    attributeSettles texts a.name.toNat a.body = .ok (a.settles texts) := by
  rw [attributeSettles]
  cases a with
  | annotations name list =>
    have hn : texts.lookup (ClassAttribute.annotations name list).name.toNat =
      some annotationsName := h.1
    have hne : texts.lookup (ClassAttribute.annotations name list).name.toNat ≠
        some deprecatedName := by
      rw [hn]
      intro heq
      exact annotationsName_ne (Option.some.inj heq)
    rw [ClassAttribute.settles, if_neg hne, if_pos hn, decide_eq_false hne, Bool.false_or]
    exact annotationsMention_encode h.2.1 h.2.2
  | other a =>
    have hn : texts.lookup (ClassAttribute.other a).name.toNat ≠ some annotationsName := h
    by_cases hd : texts.lookup (ClassAttribute.other a).name.toNat = some deprecatedName
    · rw [ClassAttribute.settles, if_pos hd, decide_eq_true hd, Bool.true_or]
    · rw [ClassAttribute.settles, if_neg hd, if_neg hn, decide_eq_false hd, Bool.false_or]

theorem someAttributeSettles_encode {texts : Texts} {as : List ClassAttribute}
    (hb : ∀ a ∈ as, a.body.length < 2 ^ 32) (h : ∀ a ∈ as, a.Named texts) :
    Yields (someAttributeSettles texts as.length) (as.flatMap ClassAttribute.encode)
      (as.any (ClassAttribute.settles texts)) := by
  induction as with
  | nil => exact (Reads.pure false).yields
  | cons a as ih =>
    have hrest := ih (fun b hm => hb b (List.mem_cons_of_mem a hm))
      fun b hm => h b (List.mem_cons_of_mem a hm)
    rw [List.flatMap_cons, ClassAttribute.encode, Attribute.encode, List.append_assoc,
      List.append_assoc, List.any_cons]
    refine Yields.bind (reads_u2 a.name) (Yields.bind (reads_length (hb a List.mem_cons_self))
      (Yields.bind (reads_take rfl) ?_))
    rw [attributeSettles_encode (h a List.mem_cons_self)]
    cases a.settles texts with
    | true => exact fun _ _ => rfl
    | false => exact hrest

namespace Contents

def texts (c : Contents) : Texts := textsFrom 1 [] c.constants

theorem lookup_texts (c : Contents) {i : Nat} {text : List UInt8} :
    c.texts.lookup i = some text ↔ c.TextAt i text := by
  rw [texts, lookup_textsFrom fun _ _ => rfl]
  simp [TextAt]

theorem named_of_wellFormed {c : Contents} (h : c.WellFormed) {a : ClassAttribute}
    (ha : a ∈ c.attributes) : a.Named c.texts := by
  cases a with
  | annotations name list =>
    obtain ⟨hn, hl, hf⟩ := h.annotations name list ha
    exact ⟨c.lookup_texts.2 hn, hl, hf⟩
  | other a =>
    intro hn
    exact h.others a ha (c.lookup_texts.1 hn)

def front (c : Contents) : List UInt8 :=
  encodeNumber 4 magic ++ ((u2 c.minor ++ u2 c.major) ++ encodeNumber 2 (1 + widthOf c.constants))

def back (c : Contents) : List UInt8 :=
  (u2 c.access ++ u2 c.self ++ u2 c.super) ++
    (encodeNumber 2 c.interfaces.length ++ (c.interfaces.flatMap u2 ++
    (encodeNumber 2 c.fields.length ++ (c.fields.flatMap Member.encode ++
    (encodeNumber 2 c.methods.length ++ (c.methods.flatMap Member.encode ++
    (encodeNumber 2 c.attributes.length ++ c.attributes.flatMap ClassAttribute.encode)))))))

theorem encode_eq (c : Contents) :
    c.encode = c.front ++ (encodeConstants c.constants ++ c.back) := by
  simp only [encode, front, back, List.append_assoc]

theorem yields_back {c : Contents} (h : c.WellFormed) :
    Yields (readRest c.texts) c.back (c.attributes.any (ClassAttribute.settles c.texts)) := by
  have hthis : (u2 c.access ++ u2 c.self ++ u2 c.super).length = 6 := by simp
  have hattributes := someAttributeSettles_encode h.attributes.2 fun a => named_of_wellFormed h
  refine Yields.bind (reads_skip hthis) (Yields.bind (reads_count h.interfaces)
    (Yields.bind (reads_skip (flatMap_u2_length c.interfaces)) ?_))
  refine Yields.bind (reads_count h.fields.1) (Yields.bind (reads_members h.fields.2) ?_)
  refine Yields.bind (reads_count h.methods.1) (Yields.bind (reads_members h.methods.2) ?_)
  exact Yields.bind (reads_count h.attributes.1) hattributes

/-- No index runs over in a well-formed class file, whose verdict is that of any arithmetic. -/
theorem verdict_encode {m : Type → Type} [Monad m] [LawfulMonad m]
    {advance : UInt16 → Nat → m UInt16} (ha : Adds advance) {c : Contents} (h : c.WellFormed) :
    verdict advance c.encode =
      pure (.ok (c.attributes.any (ClassAttribute.settles c.texts))) := by
  have hcount : (1 : UInt16).toNat + widthOf c.constants =
      (UInt16.ofNat (1 + widthOf c.constants)).toNat := by
    rw [UInt16.toNat_ofNat', Nat.mod_eq_of_lt h.pool]
    rfl
  have hback := yields_back h (0 + c.front.length + (encodeConstants c.constants).length) []
  rw [List.append_nil] at hback
  rw [verdict, Cursor.start, encode_eq, front, reads_readCount c.minor c.major h.pool, ← front]
  dsimp only
  rw [readConstants_encode ha hcount h.texts, pure_bind]
  exact congrArg pure hback

theorem settles_iff {c : Contents} :
    c.attributes.any (ClassAttribute.settles c.texts) = true ↔ c.IsDeprecated := by
  simp only [List.any_eq_true, ClassAttribute.settles, Bool.or_eq_true, decide_eq_true_eq,
    lookup_texts, IsDeprecated]
  constructor
  · rintro ⟨a, ha, hn | hm⟩
    · exact Or.inl ⟨a, ha, hn⟩
    · cases a with
      | annotations name list =>
        simp only [mentions, List.any_eq_true, decide_eq_true_eq, lookup_texts] at hm
        exact Or.inr ⟨name, list, ha, hm⟩
      | other a => cases hm
  · rintro (⟨a, ha, hn⟩ | ⟨name, list, ha, hm⟩)
    · exact ⟨a, ha, Or.inl hn⟩
    · refine ⟨.annotations name list, ha, Or.inr ?_⟩
      simpa only [mentions, List.any_eq_true, decide_eq_true_eq, lookup_texts] using hm

theorem settles_outline (texts : Texts) (a : ClassAttribute) :
    a.settles texts = (texts.lookup a.outline.1.toNat = some deprecatedName ||
      a.outline.2.any fun type => texts.lookup type.toNat = some deprecatedDescriptor) := by
  cases a with
  | annotations name list =>
    have hm : (list.map Annotation.type).any (fun type =>
        texts.lookup type.toNat = some deprecatedDescriptor) =
        mentions texts deprecatedDescriptor list := List.any_map
    exact congrArg (_ || ·) hm.symm
  | other a => rfl

theorem settles_of_outline {c d : Contents} (h : d.outline = c.outline) :
    d.attributes.any (ClassAttribute.settles d.texts) =
      c.attributes.any (ClassAttribute.settles c.texts) := by
  obtain ⟨hpool, hattributes⟩ := Prod.mk.inj h
  have hany : ∀ c : Contents, c.attributes.any (ClassAttribute.settles c.texts) =
      (c.attributes.map ClassAttribute.outline).any fun o =>
        c.texts.lookup o.1.toNat = some deprecatedName ||
        o.2.any fun type => c.texts.lookup type.toNat = some deprecatedDescriptor := by
    intro c
    rw [List.any_map]
    exact congrArg c.attributes.any (funext (settles_outline c.texts))
  rw [hany d, hany c, hattributes, texts, texts, hpool]

theorem not_runsOver {c : Contents} (h : c.WellFormed) : ¬ RunsOver c.encode := by
  rw [RunsOver, isDeprecatedChecked, verdict_encode adds_checked h]
  exact Option.some_ne_none _

theorem verdict_eq {c : Contents} (h : c.WellFormed) :
    isDeprecated c.encode = .ok (c.attributes.any (ClassAttribute.settles c.texts)) :=
  verdict_encode adds_wrapping h

end Contents

/-- On the bytes of a well-formed class file the reader gives a verdict, and it is `true` exactly
for the deprecated classes. Neither the members nor the element values have a say. -/
theorem isDeprecated_encode (c : Contents) (h : c.WellFormed) :
    (∃ verdict, isDeprecated c.encode = .ok verdict ∧ (verdict = true ↔ c.IsDeprecated)) ∧
    ∀ d : Contents, d.WellFormed → d.outline = c.outline →
      isDeprecated d.encode = isDeprecated c.encode := by
  refine ⟨⟨_, Contents.verdict_eq h, Contents.settles_iff⟩, ?_⟩
  intro d hd ho
  rw [Contents.verdict_eq hd, Contents.verdict_eq h, Contents.settles_of_outline ho]

/-- A constant of eight bytes, `Deprecated` at 5 and the descriptor of `java.lang.Deprecated`
at 4. -/
def samplePool : List Constant :=
  [.long 7, .utf8 annotationsName, .utf8 deprecatedDescriptor, .utf8 deprecatedName,
    .utf8 [76, 65, 59]]

def sampleClass (fields : List Member) (pairs : List (UInt16 × ElementValue)) : Contents where
  minor := 0
  major := 52
  constants := samplePool
  access := 1
  self := 1
  super := 1
  interfaces := [1]
  fields := fields
  methods := []
  attributes := [.annotations 3 [⟨6, pairs⟩]]

theorem sampleClass_wellFormed {fields : List Member} {pairs : List (UInt16 × ElementValue)}
    (hf : fields.length < 2 ^ 16 ∧ ∀ m ∈ fields, m.Fits)
    (hb : ∀ a ∈ (sampleClass fields pairs).attributes, a.body.length < 2 ^ 32)
    (hp : pairs.length < 2 ^ 16 ∧ PairsFit pairs) : (sampleClass fields pairs).WellFormed where
  pool := show 1 + widthOf samplePool < 2 ^ 16 by decide
  texts := by
    intro text h
    have hall : ∀ c ∈ samplePool, ∀ t ∈ c.text?, t.length < 2 ^ 16 := by decide
    exact hall _ h text rfl
  interfaces := show [(1 : UInt16)].length < 2 ^ 16 by decide
  fields := hf
  methods := ⟨Nat.two_pow_pos 16, by intro m h; cases h⟩
  attributes := ⟨Nat.one_lt_two_pow (by decide), hb⟩
  annotations := by
    intro name list h
    obtain ⟨rfl, rfl⟩ := ClassAttribute.annotations.inj (List.mem_singleton.1 h)
    refine ⟨⟨1, rfl, rfl⟩, Nat.one_lt_two_pow (by decide), ?_⟩
    intro a ha
    obtain rfl := List.mem_singleton.1 ha
    exact hp
  others := by
    intro a h
    cases List.mem_singleton.1 h

/-- Only a field and a nested annotation speak of deprecation here. -/
def quietClass : Contents :=
  sampleClass [⟨0, 6, 6, [⟨5, []⟩]⟩] [(6, .array [.nested 4 [], .enumConstant 4 6])]

theorem quietClass_wellFormed : quietClass.WellFormed := by
  refine sampleClass_wellFormed ⟨by decide, by simp [Member.Fits]⟩ ?_
    ⟨by decide, by simp [PairsFit, ElementValue.Fits, ValuesFit]⟩
  intro a ha
  obtain rfl := List.mem_singleton.1 ha
  decide

theorem bareClass_wellFormed : (sampleClass [] []).WellFormed := by
  refine sampleClass_wellFormed ⟨by decide, by simp⟩ ?_ ⟨by decide, trivial⟩
  intro a ha
  obtain rfl := List.mem_singleton.1 ha
  decide

theorem isDeprecated_encode_quietClass :
    isDeprecated quietClass.encode = .ok false ∧
    isDeprecated quietClass.encode = isDeprecated (sampleClass [] []).encode := by
  obtain ⟨⟨verdict, hv, hd⟩, -⟩ := isDeprecated_encode quietClass quietClass_wellFormed
  have hno : ¬ quietClass.IsDeprecated := fun h => absurd (Contents.settles_iff.2 h) (by decide)
  have hsame := (isDeprecated_encode _ bareClass_wellFormed).2 quietClass quietClass_wellFormed rfl
  refine ⟨?_, hsame⟩
  rw [hv, Bool.eq_false_iff.2 (mt hd.1 hno)]

end ClasspathSymbols.ClassFile
