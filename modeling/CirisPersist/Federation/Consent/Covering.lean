import CirisPersist.Federation.Consent.Governing

/-!
# Wider scope tokens

Covering compares a token that is granted with a token that is asked for.  On the
tokens that the parser makes it is reflexive and transitive, so it orders grants by
what they answer: a grant of a token answers every query that a grant of a token it
covers does.  The parser's shapes are needed, since a kind of its own form is never
compared with another form.
-/

namespace CirisPersist.Federation

/-!
## Audiences
-/

theorem eq_federation_or_cohortRank_lt
    {c : String} (hvalid : CohortScope.isValid c = true) :
    c = CohortScope.federation ∨ cohortRank c < cohortRank CohortScope.federation := by
  have hmem : c ∈ CohortScope.all := List.contains_iff_mem.mp hvalid
  simp only [CohortScope.all, List.mem_cons, List.not_mem_nil, or_false] at hmem
  rcases hmem with rfl | rfl | rfl | rfl | rfl | rfl | rfl
  case inr.inr.inr.inr.inr.inr => exact Or.inl rfl
  all_goals exact Or.inr (by decide)

theorem eq_federation_iff
    {c : String} (hvalid : CohortScope.isValid c = true) :
    c = CohortScope.federation <-> cohortRank CohortScope.federation ≤ cohortRank c :=
  ⟨fun h => h ▸ le_rfl, fun h => (eq_federation_or_cohortRank_lt hvalid).resolve_right h.not_gt⟩

/-- The audience that a `share` token asks for: a bare ask means the federation. -/
def audienceRank : SubScope -> Nat
  | .cohort c => cohortRank c
  | _ => cohortRank CohortScope.federation

theorem cohort_covers_iff
    {g : String} (hvalid : CohortScope.isValid g = true) {z : ScopeToken} (hz : z.Shaped) :
    covers ⟨TransmissionPrinciple.share, .cohort g⟩ z = true <->
      z.kind = TransmissionPrinciple.share ∧ audienceRank z.sub ≤ cohortRank g := by
  cases hz with
  | whole kind =>
      have hkind : TransmissionPrinciple.share = kind <-> kind = TransmissionPrinciple.share :=
        eq_comm
      simp [covers, audienceRank, eq_federation_iff hvalid, hkind]
  | cohort hkind hname => simp [covers, audienceRank, hkind]
  | window hkind hpos =>
      have hother : TransmissionPrinciple.retain ≠ TransmissionPrinciple.share := by decide
      simp [covers, hkind, hother]
  | family name hkind =>
      have hother : TransmissionPrinciple.analyze ≠ TransmissionPrinciple.share := by decide
      simp [covers, hkind, hother]
  | segments names hshare hretain hanalyze => simp [covers, hshare]

/-!
## A preorder
-/

theorem kind_eq_of_covers
    {x y : ScopeToken} (h : covers x y = true) :
    x.kind = y.kind := by
  unfold covers at h
  exact eq_of_beq (Bool.and_eq_true_iff.mp h).1

theorem covers_refl
    (x : ScopeToken) :
    covers x x = true := by
  rcases x with ⟨kind, sub⟩
  cases sub <;> simp [covers]

theorem covers_trans
    {x y z : ScopeToken} (hx : x.Shaped) (hy : y.Shaped) (hz : z.Shaped)
    (hxy : covers x y = true) (hyz : covers y z = true) :
    covers x z = true := by
  have hkind : x.kind = z.kind := (kind_eq_of_covers hxy).trans (kind_eq_of_covers hyz)
  cases hx with
  | whole kind => simpa [covers] using hkind
  | window _ _ => simpa [covers] using hkind
  | cohort hshare hvalid =>
      subst hshare
      rcases (cohort_covers_iff hvalid hy).mp hxy with ⟨hyshare, hwide⟩
      refine (cohort_covers_iff hvalid hz).mpr ⟨hkind.symm, ?_⟩
      cases hy with
      | whole kind =>
          -- A grant that covers the bare ask is as wide as an audience can be.
          refine le_trans ?_ hwide
          cases hz with
          | cohort _ hname =>
              rcases eq_federation_or_cohortRank_lt hname with rfl | hlt
              · exact le_rfl
              · exact le_of_lt hlt
          | _ => exact le_rfl
      | cohort hshare hname =>
          subst hshare
          exact le_trans ((cohort_covers_iff hname hz).mp hyz).2 hwide
      | _ => simp [covers] at hxy
  | family name hanalyze =>
      cases hy with
      | family name' hanalyze' =>
          have hname : name = name' := eq_of_beq (Bool.and_eq_true_iff.mp hxy).2
          subst hname hanalyze hanalyze'
          exact hyz
      | _ => simp [covers] at hxy
  | segments names _ _ _ =>
      cases hy with
      | segments names' _ _ _ =>
          cases hz with
          | segments names'' _ _ _ =>
              have hfirst : names <+: names' :=
                List.isPrefixOf_iff_prefix.mp (Bool.and_eq_true_iff.mp hxy).2
              have hsecond : names' <+: names'' :=
                List.isPrefixOf_iff_prefix.mp (Bool.and_eq_true_iff.mp hyz).2
              exact Bool.and_eq_true_iff.mpr
                ⟨beq_iff_eq.mpr hkind, List.isPrefixOf_iff_prefix.mpr (hfirst.trans hsecond)⟩
          | _ => simp [covers] at hyz
      | _ => simp [covers] at hxy

def ScopeToken.bare (x : ScopeToken) : ScopeToken :=
  ⟨x.kind, .whole⟩

theorem bare_covers_iff
    (x z : ScopeToken) :
    covers x.bare z = true <-> x.kind = z.kind := by
  simp [covers, ScopeToken.bare]

/-!
## Grants and queries
-/

def ScopeToken.Parsed (token : ScopeToken) : Prop :=
  exists text, parseScopeToken text = .ok token

theorem ScopeToken.Parsed.shaped
    {token : ScopeToken} (h : token.Parsed) :
    token.Shaped := by
  rcases h with ⟨text, htext⟩
  exact shaped_of_parseScopeToken htext

/-- Each token of the narrow row is covered by one of the wide row, in the same class
of content. -/
structure WiderGrant (wide narrow : Attestation) : Prop where
  tokens : forall y, y ∈ scopeTokens narrow -> exists x, x ∈ scopeTokens wide ∧ covers x y = true
  contentClass :
    wide.envelope.getStr? "content_class" = narrow.envelope.getStr? "content_class"

theorem NamesScope.of_wider
    {wide narrow : Attestation} {scope : String} {qualifier : Option String}
    (hwider : WiderGrant wide narrow) (h : NamesScope narrow scope qualifier) :
    NamesScope wide scope qualifier := by
  rcases h with ⟨⟨name, y, query, hname, hy, hquery, hcovers⟩, hclass⟩
  rcases hwider.tokens y ((mem_scopeTokens_iff narrow y).mpr ⟨name, hname, hy⟩) with ⟨x, hx, hxy⟩
  rcases (mem_scopeTokens_iff wide x).mp hx with ⟨name', hname', hx⟩
  have hwide : covers x query = true :=
    covers_trans (shaped_of_parseScopeToken hx) (shaped_of_parseScopeToken hy)
      (shaped_of_parseScopeToken hquery) hxy hcovers
  refine ⟨⟨name', x, query, hname', hx, hquery, hwide⟩, ?_⟩
  intro c hc
  rw [hwider.contentClass]
  exact hclass c hc

/-- Covering is a preorder on parsed tokens with the bare token of each kind on top, and a
row that names a scope answers every query that a narrower row does. -/
theorem scope_covering_preorder :
    (forall x : ScopeToken, x.Parsed -> covers x x = true) ∧
    (forall x y z : ScopeToken, x.Parsed -> y.Parsed -> z.Parsed ->
      covers x y = true -> covers y z = true -> covers x z = true) ∧
    (forall x z : ScopeToken, x.Parsed -> z.Parsed -> covers x x.bare = true ->
      z.kind = x.kind -> covers x z = true) ∧
    (forall x y : ScopeToken, x.Parsed -> y.Parsed ->
      (covers x y = true <->
        forall z : ScopeToken, z.Parsed -> covers y z = true -> covers x z = true)) ∧
    forall wide narrow : Attestation, WiderGrant wide narrow -> namedScopes narrow ≠ [] ->
      forall scope qualifier, matchesScopedQuery narrow scope qualifier = true ->
        matchesScopedQuery wide scope qualifier = true := by
  refine ⟨fun x _ => covers_refl x, ?_, ?_, ?_, ?_⟩
  · intro x y z hx hy hz hxy hyz
    exact covers_trans hx.shaped hy.shaped hz.shaped hxy hyz
  · intro x z hx hz hbare hkind
    exact covers_trans hx.shaped (ScopeToken.Shaped.whole x.kind) hz.shaped hbare
      ((bare_covers_iff x z).mpr hkind.symm)
  · intro x y hx hy
    constructor
    · intro hxy z hz hyz
      exact covers_trans hx.shaped hy.shaped hz.shaped hxy hyz
    · intro h
      exact h y hy (covers_refl y)
  · intro wide narrow hwider hnamed scope qualifier h
    rcases (matchesScopedQuery_iff narrow scope qualifier).mp h with hscope | ⟨hnone, -⟩
    · exact (matchesScopedQuery_iff wide scope qualifier).mpr (Or.inl (hscope.of_wider hwider))
    · exact absurd hnone hnamed

theorem federation_share_covers_family :
    covers ⟨"share", .cohort "federation"⟩ ⟨"share", .whole⟩ = true ∧
      covers ⟨"share", .cohort "federation"⟩ ⟨"share", .cohort "family"⟩ =
        true := by
  have hfederation : ScopeToken.Parsed ⟨"share", .cohort "federation"⟩ :=
    ⟨"share:cohort:federation", Checks.toOption_eq_some_iff.mp (by decide)⟩
  have hfamily : ScopeToken.Parsed ⟨"share", .cohort "family"⟩ :=
    ⟨"share:cohort:family", Checks.toOption_eq_some_iff.mp (by decide)⟩
  exact ⟨by decide, scope_covering_preorder.2.2.1 _ _ hfederation hfamily (by decide) rfl⟩

end CirisPersist.Federation
