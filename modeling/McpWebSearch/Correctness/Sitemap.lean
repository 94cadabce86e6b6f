import McpWebSearch.Actions.Fetch
import McpWebSearch.Actions.Map
import McpWebSearch.Lib.History

/-!
# `Correctness.Sitemap` — what the two sitemap parsers extract

Both parsers keep one flag, `in_loc`. What it stands for is said of the events read so far: `locOpen`, the last
`loc` tag is not an end tag (`parse_sitemap_fast`), and `locFresh`, no element at all has ended since
(`web_sitemap`). Either list is then the sequence of what each event pushes (`pushes`), and
`sitemap_parsers_agree_iff` says at which events the two pushes are the same.
-/

namespace McpWebSearch
namespace Actions

open Utf8 Xml History

/-! ## The flags -/

/-- A start tag or a self-closing tag `loc`: what sets the flag of both parsers. -/
def setsLoc : Event → Bool
  | .start name | .empty name => decide (name = "loc")
  | _ => false

/-- An end tag `loc`. -/
def closesLoc : Event → Bool
  | .close name => decide (name = "loc")
  | _ => false

/-- An end tag. -/
def closesAny : Event → Bool
  | .close _ => true
  | _ => false

/-- Of the events that set or reset a flag, the last one sets it. -/
def lastSets (resets : Event → Bool) (pre : List Event) : Bool :=
  ((pre.filter (fun e => setsLoc e || resets e)).getLast?).any setsLoc

/-- The last `loc` tag is a start tag or self-closing. -/
def locOpen (pre : List Event) : Bool := lastSets closesLoc pre

/-- The last `loc` tag is a start tag or self-closing, and no element has ended since. -/
def locFresh (pre : List Event) : Bool := lastSets closesAny pre

theorem lastSets_snoc (resets : Event → Bool) (pre : List Event) (e : Event) :
    lastSets resets (pre ++ [e]) =
      if setsLoc e || resets e then setsLoc e else lastSets resets pre := by
  unfold lastSets
  rw [List.filter_append]
  by_cases h : (setsLoc e || resets e) = true
  · rw [if_pos h]
    simp [h]
  · rw [if_neg h]
    simp [h]

theorem locOpen_snoc (pre : List Event) (e : Event) :
    locOpen (pre ++ [e]) = if setsLoc e || closesLoc e then setsLoc e else locOpen pre :=
  lastSets_snoc closesLoc pre e

theorem locFresh_snoc (pre : List Event) (e : Event) :
    locFresh (pre ++ [e]) = if setsLoc e || closesAny e then setsLoc e else locFresh pre :=
  lastSets_snoc closesAny pre e

/-- A flag that is fresh is open. -/
theorem locOpen_of_locFresh {pre : List Event} (h : locFresh pre = true) : locOpen pre = true := by
  induction pre using List.reverseRecOn with
  | nil => exact h
  | append_singleton pre e ih =>
      rw [locFresh_snoc] at h
      rw [locOpen_snoc]
      cases hsets : setsLoc e with
      | true => rfl
      | false =>
          -- an end tag resets the flag that is fresh, whatever its name
          rw [hsets] at h
          cases e with
          | close n => cases h
          | start n | empty n | text t | cdata s | other => exact ih h

/-! ## What the parsers push -/

/-- What `parse_sitemap_fast` pushes at an event with its flag up. -/
def fastTexts : Event → List Text
  | .text (some t) => if trim t = [] then [] else [trim t]
  | _ => []

/-- What the parser of `web_sitemap` pushes at an event with its flag up, its limit apart. -/
def sitemapTexts : Event → List Text
  | .text (some t) => if t = [] then [] else [t]
  | _ => []

/-- What `parse_sitemap_fast` pushes is part of the event's characters. -/
theorem mem_of_mem_fastTexts {t : Text} {e : Event} (h : t ∈ fastTexts e) {c : Char} (hc : c ∈ t) :
    c ∈ e.chars := by
  cases e with
  | start n | empty n | close n | cdata s | other => cases h
  | text t' =>
      cases t' with
      | none => cases h
      | some t' =>
          have h : t ∈ if trim t' = [] then [] else [trim t'] := h
          by_cases hblank : trim t' = []
          · rw [if_pos hblank] at h
            cases h
          · rw [if_neg hblank] at h
            obtain rfl := List.mem_singleton.mp h
            exact mem_of_mem_trim hc

/-- One step of `parse_sitemap_fast`: the flag, and what is pushed. -/
theorem parseSitemapStep_eq (st : Bool × List Text) (e : Event) :
    parseSitemapStep st e =
      (if setsLoc e || closesLoc e then setsLoc e else st.1, st.2 ++ if st.1 then fastTexts e else []) := by
  obtain ⟨inLoc, out⟩ := st
  cases e with
  | start n | empty n =>
      by_cases hn : n = "loc"
      · simp only [parseSitemapStep, setsLoc, closesLoc, fastTexts, hn, decide_true, Bool.or_false, if_true,
          ite_self, List.append_nil]
      · simp only [parseSitemapStep, setsLoc, closesLoc, fastTexts, hn, decide_false, Bool.or_false, if_false,
          Bool.false_eq_true, ite_self, List.append_nil]
  | close n =>
      by_cases hn : n = "loc"
      · simp only [parseSitemapStep, setsLoc, closesLoc, fastTexts, hn, decide_true, Bool.or_true, if_true,
          ite_self, List.append_nil]
      · simp only [parseSitemapStep, setsLoc, closesLoc, fastTexts, hn, decide_false, Bool.or_false, if_false,
          Bool.false_eq_true, ite_self, List.append_nil]
  | text t =>
      cases t with
      | none => cases inLoc <;> simp [parseSitemapStep, setsLoc, closesLoc, fastTexts]
      | some t =>
          by_cases hblank : trim t = []
          · cases inLoc <;> simp [parseSitemapStep, setsLoc, closesLoc, fastTexts, hblank]
          · cases inLoc <;> simp [parseSitemapStep, setsLoc, closesLoc, fastTexts, hblank]
  | cdata s | other => cases inLoc <;> simp [parseSitemapStep, setsLoc, closesLoc, fastTexts]

/-- One step of the parser of `web_sitemap`: any end tag resets the flag, and pushing stops at the limit. -/
theorem webSitemapStep_eq (limit : Nat) (st : Bool × List Text) (e : Event) :
    webSitemapStep limit st e =
      (if setsLoc e || closesAny e then setsLoc e else st.1,
        st.2 ++ if st.1 && st.2.length < limit then sitemapTexts e else []) := by
  obtain ⟨inLoc, out⟩ := st
  cases e with
  | start n | empty n =>
      by_cases hn : n = "loc"
      · simp only [webSitemapStep, setsLoc, closesAny, sitemapTexts, hn, decide_true, Bool.or_false, if_true,
          ite_self, List.append_nil]
      · simp only [webSitemapStep, setsLoc, closesAny, sitemapTexts, hn, decide_false, Bool.or_false, if_false,
          Bool.false_eq_true, ite_self, List.append_nil]
  | close n =>
      simp only [webSitemapStep, setsLoc, closesAny, sitemapTexts, Bool.or_true, if_true, ite_self,
        List.append_nil]
  | text t =>
      cases t with
      | none => simp [webSitemapStep, setsLoc, closesAny, sitemapTexts]
      | some t =>
          by_cases hempty : t = []
          · simp [webSitemapStep, setsLoc, closesAny, sitemapTexts, hempty]
          · by_cases hpush : inLoc = true ∧ out.length < limit
            · simp [webSitemapStep, setsLoc, closesAny, sitemapTexts, hempty, hpush]
            · simp [webSitemapStep, setsLoc, closesAny, hempty, hpush]
  | cdata s | other => simp [webSitemapStep, setsLoc, closesAny, sitemapTexts]

/-- What is pushed at the events `es` after `pre`, for a flag and the texts of an event. -/
def pushes (flag : List Event → Bool) (texts : Event → List Text) (pre : List Event) :
    List Event → List Text
  | [] => []
  | e :: es => (if flag pre then texts e else []) ++ pushes flag texts (pre ++ [e]) es

theorem pushes_append (flag : List Event → Bool) (texts : Event → List Text) (pre es fs : List Event) :
    pushes flag texts pre (es ++ fs) = pushes flag texts pre es ++ pushes flag texts (pre ++ es) fs := by
  induction es generalizing pre with
  | nil => simp [pushes]
  | cons e es ih => simp [pushes, ih]

theorem pushes_snoc (flag : List Event → Bool) (texts : Event → List Text) (pre es : List Event)
    (e : Event) :
    pushes flag texts pre (es ++ [e]) =
      pushes flag texts pre es ++ if flag (pre ++ es) then texts e else [] := by
  rw [pushes_append]
  simp [pushes]

/-- `parse_sitemap_fast`: its flag is `locOpen`, and each event adds its push. -/
theorem parseSitemapFast_state (es : List Event) :
    es.foldl parseSitemapStep (false, []) = (locOpen es, pushes locOpen fastTexts [] es) := by
  induction es using List.reverseRecOn with
  | nil => rfl
  | append_singleton es e ih =>
      rw [List.foldl_append, ih, pushes_snoc]
      show parseSitemapStep _ e = _
      rw [parseSitemapStep_eq, locOpen_snoc, List.nil_append]

theorem length_sitemapTexts_le (e : Event) : (sitemapTexts e).length ≤ 1 := by
  unfold sitemapTexts
  split
  · split
    · exact Nat.zero_le 1
    · exact Nat.le_refl 1
  · exact Nat.zero_le 1

/-- Pushing at most one element as long as there is room keeps a prefix of what is pushed without a limit. -/
theorem take_append_push {out xs : List Text} {limit : Nat} (hxs : xs.length ≤ 1) :
    out.take limit ++ (if (out.take limit).length < limit then xs else []) = (out ++ xs).take limit := by
  by_cases hroom : out.length < limit
  · have hout : out.take limit = out := List.take_of_length_le (Nat.le_of_lt hroom)
    have hall : (out ++ xs).take limit = out ++ xs := by
      apply List.take_of_length_le
      rw [List.length_append]
      omega
    rw [hout, if_pos hroom, hall]
  · have hfull : (out.take limit).length = limit := by
      rw [List.length_take]
      omega
    rw [if_neg (by omega), List.append_nil, List.take_append_of_le_length (by omega)]

/-- The parser of `web_sitemap`: its flag is `locFresh`, and each event adds its push until the limit. -/
theorem webSitemapUrls_state (limit : Nat) (es : List Event) :
    es.foldl (webSitemapStep limit) (false, []) =
      (locFresh es, (pushes locFresh sitemapTexts [] es).take limit) := by
  induction es using List.reverseRecOn with
  | nil => simp [locFresh, lastSets, pushes]
  | append_singleton es e ih =>
      rw [List.foldl_append, ih, pushes_snoc]
      show webSitemapStep limit _ e = _
      rw [webSitemapStep_eq, locFresh_snoc, List.nil_append]
      refine Prod.ext rfl ?_
      cases locFresh es with
      | true => simpa using take_append_push (length_sitemapTexts_le e)
      | false => simp

/-! ## The two parsers -/

/-- Where the two parsers do the same with a decoded text: what `parse_sitemap_fast` takes, `web_sitemap` takes
    as it is, and the other way round. -/
def SameAt (pre : List Event) (t : Text) : Prop :=
  (locOpen pre = true → trim t ≠ [] → locFresh pre = true ∧ trim t = t) ∧
    (locFresh pre = true → trim t = [] → t = [])

/-- The pushes of the two parsers at an event. -/
theorem pushes_eq_iff (pre : List Event) (e : Event) :
    (if locFresh pre then sitemapTexts e else []) = (if locOpen pre then fastTexts e else []) ↔
      ∀ t, e = .text (some t) → SameAt pre t := by
  have hquiet : sitemapTexts e = [] → fastTexts e = [] → ((if locFresh pre then sitemapTexts e else []) =
      (if locOpen pre then fastTexts e else [])) := by
    intro hs hf
    rw [hs, hf, ite_self, ite_self]
  cases e with
  | start n | empty n | close n | cdata s | other =>
      exact ⟨fun _ t ht => Event.noConfusion ht, fun _ => hquiet rfl rfl⟩
  | text t =>
      cases t with
      | none =>
          refine ⟨fun _ t ht => ?_, fun _ => hquiet rfl rfl⟩
          cases ht
      | some t =>
          have hforall : (∀ t', Event.text (some t) = .text (some t') → SameAt pre t') ↔ SameAt pre t := by
            simp
          rw [hforall]
          unfold SameAt sitemapTexts fastTexts
          by_cases hfresh : locFresh pre = true
          · have hopen := locOpen_of_locFresh hfresh
            by_cases hblank : trim t = []
            · simp [hfresh, hopen, hblank]
            · have hne : t ≠ [] := by
                rintro rfl
                exact hblank rfl
              simp [hfresh, hopen, hblank, hne, eq_comm]
          · by_cases hopen : locOpen pre = true
            · simp [hfresh, hopen]
            · simp [hfresh, hopen]

/-- The texts that `parse_sitemap_fast` pushes are trimmed and not empty. -/
def Trimmed (t : Text) : Prop := trim t = t ∧ t ≠ []

instance (t : Text) : Decidable (Trimmed t) := inferInstanceAs (Decidable (_ ∧ _))

theorem trimmed_of_mem_pushes {t : Text} {pre es : List Event}
    (h : t ∈ pushes locOpen fastTexts pre es) : Trimmed t := by
  induction es generalizing pre with
  | nil => cases h
  | cons e es ih =>
      rcases List.mem_append.mp h with hhere | hrest
      · split at hhere
        · unfold fastTexts at hhere
          split at hhere
          · split at hhere
            · cases hhere
            next hne =>
              obtain rfl := List.mem_singleton.mp hhere
              exact ⟨trim_trim _, hne⟩
          · cases hhere
        · cases hhere
      · exact ih hrest

/-- A trimmed text that `web_sitemap` pushes is pushed by `parse_sitemap_fast` too. -/
theorem fastPush_of_trimmed {pre : List Event} {e : Event} {t : Text}
    (h : t ∈ if locFresh pre then sitemapTexts e else []) (ht : Trimmed t) :
    (if locOpen pre then fastTexts e else []) = [t] := by
  split at h
  next hfresh =>
    rw [if_pos (locOpen_of_locFresh hfresh)]
    unfold sitemapTexts at h
    split at h
    · split at h
      · cases h
      · obtain rfl := List.mem_singleton.mp h
        show (if trim t = [] then [] else [trim t]) = [t]
        rw [ht.1, if_neg ht.2]
    · cases h
  · cases h

/-- An event adds at most one text to either list. -/
theorem length_push_le (pre : List Event) (e : Event) :
    (if locFresh pre then sitemapTexts e else []).length ≤ 1 ∧
      (if locOpen pre then fastTexts e else []).length ≤ 1 := by
  constructor
  · split
    · exact length_sitemapTexts_le e
    · exact Nat.zero_le 1
  · unfold fastTexts
    split
    · split
      · split
        · exact Nat.zero_le 1
        · exact Nat.le_refl 1
      · exact Nat.zero_le 1
    · exact Nat.zero_le 1

/-- The trimmed texts of `web_sitemap` are, in order, among those of `parse_sitemap_fast`. -/
theorem filter_trimmed_sublist (pre es : List Event) :
    ((pushes locFresh sitemapTexts pre es).filter (fun t => decide (Trimmed t))).Sublist
      (pushes locOpen fastTexts pre es) := by
  induction es generalizing pre with
  | nil => exact List.Sublist.refl []
  | cons e es ih =>
      show (List.filter _ (_ ++ _)).Sublist (_ ++ _)
      rw [List.filter_append]
      refine List.Sublist.append ?_ (ih (pre ++ [e]))
      rcases eq_nil_or_singleton (length_push_le pre e).1 with hnone | ⟨t, hone⟩
      · rw [hnone]
        exact List.nil_sublist _
      · by_cases ht : Trimmed t
        · rw [fastPush_of_trimmed (by rw [hone]; exact List.mem_singleton_self t) ht, hone]
          exact List.filter_sublist
        · rw [hone, List.filter_cons_of_neg (by simpa using ht)]
          exact List.nil_sublist _

/-- **No coincidences**: the two lists are the same only if the pushes at every event are. -/
theorem pushes_agree_iff (es : List Event) :
    pushes locFresh sitemapTexts [] es = pushes locOpen fastTexts [] es ↔
      AtEach (fun pre e => ∀ t, e = .text (some t) → SameAt pre t) es := by
  induction es using List.reverseRecOn with
  | nil => exact ⟨fun _ => atEach_nil, fun _ => rfl⟩
  | append_singleton es e ih =>
      rw [pushes_snoc, pushes_snoc, List.nil_append, atEach_snoc, ← ih, ← pushes_eq_iff]
      constructor
      · intro h
        obtain ⟨hsite, hfast⟩ := length_push_le es e
        rcases eq_nil_or_singleton hsite with hnone | ⟨t, hone⟩
        · rcases eq_nil_or_singleton hfast with hnone' | ⟨s, hone'⟩
          · rw [hnone, hnone', List.append_nil, List.append_nil] at h
            exact ⟨h, hnone.trans hnone'.symm⟩
          · -- `web_sitemap` would have one text more than the sublist it is
            rw [hnone, hone', List.append_nil] at h
            have htrimmed : ∀ t ∈ pushes locFresh sitemapTexts [] es, Trimmed t := by
              intro t ht
              have hmem : t ∈ pushes locOpen fastTexts [] (es ++ [e]) := by
                rw [pushes_snoc, List.nil_append, hone', ← h]
                exact ht
              exact trimmed_of_mem_pushes hmem
            have hsub := (filter_trimmed_sublist [] es).length_le
            rw [List.filter_eq_self.mpr (fun t ht => decide_eq_true (htrimmed t ht)), h,
              List.length_append, List.length_singleton] at hsub
            omega
        · -- its text is the last one of the other list, so trimmed, and pushed by both
          have hpush : (if locOpen es then fastTexts e else []) = [t] := by
            apply fastPush_of_trimmed (by rw [hone]; exact List.mem_singleton_self t)
            have hmem : t ∈ pushes locOpen fastTexts [] (es ++ [e]) := by
              rw [pushes_snoc, List.nil_append, ← h, hone]
              exact List.mem_append_right _ (List.mem_singleton_self t)
            exact trimmed_of_mem_pushes hmem
          rw [hone, hpush] at h
          exact ⟨List.append_cancel_right h, hone.trans hpush.symm⟩
      · rintro ⟨hlists, hpush⟩
        rw [hlists, hpush]

/-- **When the two parsers agree**: at every decoded text, for every limit. -/
theorem sitemap_parsers_agree_iff (es : List Event) :
    (∀ limit, webSitemapUrls limit es = (parseSitemapFast es).take limit) ↔
      AtEach (fun pre e => ∀ t, e = .text (some t) → SameAt pre t) es := by
  have hfast : parseSitemapFast es = pushes locOpen fastTexts [] es :=
    congrArg Prod.snd (parseSitemapFast_state es)
  have hsitemap : ∀ limit, webSitemapUrls limit es = (pushes locFresh sitemapTexts [] es).take limit :=
    fun limit => congrArg Prod.snd (webSitemapUrls_state limit es)
  rw [← pushes_agree_iff, hfast]
  constructor
  · intro h
    -- a limit that neither list reaches
    have hlong := h (max (pushes locFresh sitemapTexts [] es).length (pushes locOpen fastTexts [] es).length)
    rwa [hsitemap, List.take_of_length_le (Nat.le_max_left _ _),
      List.take_of_length_le (Nat.le_max_right _ _)] at hlong
  · intro h limit
    rw [hsitemap, h]

/-- **An element inside a `loc`** ends it for `web_sitemap`: `<loc>https://a.com/<i></i>x</loc>`. -/
theorem sitemap_parsers_disagree :
    ¬ ∀ es, wellFormed es = true → ∀ limit, webSitemapUrls limit es = (parseSitemapFast es).take limit := by
  intro h
  have hlists := h [.start "loc", .text (some "https://a.com/"), .start "i", .close "i", .text (some "x"),
    .close "loc"] (by decide) 10
  exact absurd hlists (by decide)

end Actions
end McpWebSearch
