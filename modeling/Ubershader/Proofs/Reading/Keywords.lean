import Ubershader.Proofs.Directive
import Ubershader.Provider.Catalog
import Ubershader.Reading.Walk

/-!
# Lines that mention no keyword

A line is searched for the two keywords before it is cut into tokens, and one that holds neither is
copied at once. This only saves work. The keyword of a directive is a part of one of its tokens, and
a token is a part of its line, so a line without the keywords is plain text for its tokens too
(`Directive.ofTokens_eq_plain`), and every line is read as its tokens say
(`Walk.readLine_eq_readTokens`).
-/

namespace Ubershader

namespace Directive

theorem append_of_remainder? {front whole rest : String}
    (hremainder : remainder? front whole = some rest) :
    front.toList ++ rest.toList = whole.toList := by
  obtain ⟨chars, hchars, rfl⟩ := Option.map_eq_some_iff.mp hremainder
  rw [String.toList_ofList]
  exact List.isPrefixOf?_eq_some_iff_append_eq.mp hchars

/-- The keyword of a line is a part of one of its tokens. -/
theorem exists_mem_of_keyword? {tokens rest : List String} {word : String}
    (hkeyword : keyword? tokens = some (word, rest)) :
    ∃ token ∈ tokens, word.toList <:+: token.toList := by
  cases tokens with
  | nil => cases hkeyword
  | cons first others =>
    unfold keyword? at hkeyword
    dsimp only at hkeyword
    split at hkeyword
    · cases others with
      | nil => cases hkeyword
      | cons second others =>
        cases hkeyword
        exact ⟨word, by simp, List.infix_refl _⟩
    · obtain ⟨attached, hattached, hpair⟩ := Option.map_eq_some_iff.mp hkeyword
      cases hpair
      refine ⟨first, by simp, ?_⟩
      rw [← append_of_remainder? hattached]
      exact (List.suffix_append _ _).isInfix

/-- Tokens without the two keywords ask for nothing. -/
theorem ofTokens_eq_plain {tokens : List String}
    (hpragma : ∀ token ∈ tokens, ¬ "pragma".toList <:+: token.toList)
    (hinclude : ∀ token ∈ tokens, ¬ "include".toList <:+: token.toList) :
    ofTokens tokens = plain := by
  rw [ofTokens]
  split
  · rfl
  · next word rest hkeyword =>
    obtain ⟨token, htoken, hword⟩ := exists_mem_of_keyword? hkeyword
    split
    · next attached hattached =>
      have hfront : "include".toList <:+: word.toList := by
        rw [← append_of_remainder? hattached]
        exact (List.prefix_append _ _).isInfix
      exact absurd (hfront.trans hword) (hinclude token htoken)
    · split
      · next hsame =>
        rw [hsame] at hword
        exact absurd hword (hpragma token htoken)
      · rfl

theorem isMentioned_eq_false_iff {line : String} : isMentioned line = false ↔
    ¬ "pragma".toList <:+: line.toList ∧ ¬ "include".toList <:+: line.toList := by
  rw [isMentioned, Bool.or_eq_false_iff, ← Text.occurs_iff_isInfix, ← Text.occurs_iff_isInfix,
    Bool.not_eq_true, Bool.not_eq_true]

theorem ofTokens_tokens_of_isMentioned {line : String} (hmentioned : isMentioned line = false) :
    ofTokens (Text.tokens line) = plain := by
  obtain ⟨hpragma, hinclude⟩ := isMentioned_eq_false_iff.mp hmentioned
  refine ofTokens_eq_plain ?_ ?_
  · intro token htoken hpiece
    exact hpragma (hpiece.trans (Text.isInfix_of_mem_tokens htoken))
  · intro token htoken hpiece
    exact hinclude (hpiece.trans (Text.isInfix_of_mem_tokens htoken))

end Directive

/-- The session after a line was copied as it is: the line stands at the end of the current buffer,
and the journal says so. -/
def Session.copying {σ κ : Type} (session : Session σ κ) (site : Location) : Session σ κ :=
  let line := Line.copied site.file site.line site.text
  { session with
    draft := session.draft.modifyCurrent (·.push line)
    journal := session.journal.push (.edit (.append line)) }

namespace Walk

variable {σ κ : Type} (settings : Settings) (visit : Visitor σ κ) (file : Target κ) (once : Bool)
  (site : Location)

/-- Read one line by its tokens, also if no keyword is in it. -/
def readTokens : Walk σ κ Bool :=
  obey settings visit file once site (Directive.ofTokens (Text.tokens site.text))

/-- Reading a line has two ways, a short one and one by the tokens. -/
theorem readLine_eq_ite : readLine settings visit file once site =
    if Directive.isMentioned site.text then readTokens settings visit file once site
    else copyLine once site := by
  rw [readLine, Directive.ofLine]
  split <;> rfl

/-- Searching a line for the keywords makes no difference to what it does. -/
theorem readLine_eq_readTokens : readLine settings visit file once site =
    readTokens settings visit file once site := by
  rw [readLine_eq_ite]
  split
  · rfl
  · next hmentioned =>
    rw [readTokens, Directive.ofTokens_tokens_of_isMentioned (Bool.eq_false_iff.mpr hmentioned)]
    rfl

theorem run_copyLine (session : Session σ κ) :
    (copyLine once site).run session = .ok once (session.copying site) := rfl

variable {site}

/-- A line without the keywords is copied, also when it is read by its tokens: from every session,
in every file and whether or not that is included once only, the line comes to the end of the
current buffer as it is written, no fault is met, and nothing else is changed. The short way does
the same. -/
theorem run_readTokens_of_not_isInfix (hpragma : ¬ "pragma".toList <:+: site.text.toList)
    (hinclude : ¬ "include".toList <:+: site.text.toList) (session : Session σ κ) :
    (readTokens settings visit file once site).run session = .ok once (session.copying site) ∧
    (readLine settings visit file once site).run session = .ok once (session.copying site) ∧
    (session.copying site).draft.current.lines.toList.map Line.text =
      session.draft.current.lines.toList.map Line.text ++ [site.text] := by
  have hmentioned : Directive.isMentioned site.text = false :=
    Directive.isMentioned_eq_false_iff.mpr ⟨hpragma, hinclude⟩
  have hshort : (readLine settings visit file once site).run session =
      .ok once (session.copying site) := by
    rw [readLine_eq_ite, hmentioned]
    exact run_copyLine once site session
  refine ⟨?_, hshort, ?_⟩
  · rw [← readLine_eq_readTokens]
    exact hshort
  · simp [Session.copying, Line.text]

theorem run_readTokens_brokenKeywords :
    let site : Location := ⟨"main", 3, " #\tinclu de \"a\" prag\u00a0ma"⟩
    let session : Session Unit String := { world := () }
    ¬ "pragma".toList <:+: site.text.toList ∧ ¬ "include".toList <:+: site.text.toList ∧
      (readTokens {} (Walk.visit {} (Catalog.provider {}) 8) ⟨"main", ""⟩ true site).run session =
        .ok true (session.copying site) := by
  intro site session
  have hpragma : ¬ "pragma".toList <:+: site.text.toList := by decide
  have hinclude : ¬ "include".toList <:+: site.text.toList := by decide
  exact ⟨hpragma, hinclude, (run_readTokens_of_not_isInfix {} _ _ true hpragma hinclude session).1⟩

end Walk

end Ubershader
