import LoxLang.Proofs.Parse.Containment

/-!
# Where a parser goes, and where it fails

With enough fuel,

* `Leads p tokens q tokens'` : `p` takes what stands before `tokens'` and goes on as `q`;
* `Fails p tokens e rest` : `p` ends in the mistake `e` before `rest`;
* `Costs c e p tokens tokens'` : `p` reports `e` before any other mistake, and if `c` holds, it otherwise
  replies as it does to `tokens'`.

What a parser leads to decides whether it fails and what it costs (`Fails.enter`, `Costs.enter`), and so
does the first of two parsers (`Fails.bind`, `Costs.bind`): after a mistake has been recovered, everything
that is read later is read in the same way.
-/

namespace LoxLang

namespace Parse

variable {α β γ : Type} {tokens tokens' mid rest : List Token} {e : Mistake} {c : Prop}

/-- With enough fuel `p` comes to `q` with other tokens. -/
def Leads (p : Nat → Parser α) (tokens : List Token) (q : Nat → Parser α) (tokens' : List Token) :
    Prop :=
  ∃ n, ∀ fuel, n ≤ fuel → p fuel tokens = q fuel tokens'

/-- With enough fuel `p` ends in the mistake before `rest`, and reports none before it. -/
def Fails (p : Nat → Parser α) (tokens : List Token) (e : Mistake) (rest : List Token) : Prop :=
  ∃ n, ∀ fuel, n ≤ fuel → p fuel tokens = .failed e rest []

/-- With enough fuel `p` reports the mistake before any other.  If `c` holds, it otherwise replies as it
does to `tokens'`. -/
def Costs (c : Prop) (e : Mistake) (p : Nat → Parser α) (tokens tokens' : List Token) : Prop :=
  ∃ n, ∀ fuel, n ≤ fuel → ∃ r, p fuel tokens = r.after [e] ∧ (c → p fuel tokens' = r)

theorem bind_done {p : Parser α} {f : α → Parser β} {a : α} {reported : List Mistake}
    (h : p tokens = .done a mid reported) : (p >>= f) tokens = (f a mid).after reported := by
  rw [bind_apply, h]

theorem bind_failed {p : Parser α} {f : α → Parser β} {reported : List Mistake}
    (h : p tokens = .failed e rest reported) : (p >>= f) tokens = .failed e rest reported := by
  rw [bind_apply, h]

theorem bind_starved {p : Parser α} {f : α → Parser β} (h : p tokens = .starved) :
    (p >>= f) tokens = .starved := by
  rw [bind_apply, h]

/-! ### The next token -/

section

variable {s : Symbol} {t : Token}

theorem settles_accept (ht : t.is s = true) :
    Settles (fun _ => accept s) (t :: tokens) (some t) tokens :=
  .of_eq (by simp [accept, acceptAny, take?, ht])

theorem settles_accept_none (h : Stops [s] tokens) :
    Settles (fun _ => accept s) tokens none tokens := .of_eq (acceptAny_of_stops h)

theorem settles_accepts (ht : t.is s = true) :
    Settles (fun _ => accepts s) (t :: tokens) true tokens := .accept ht (.pure _)

theorem settles_accepts_none (h : Stops [s] tokens) :
    Settles (fun _ => accepts s) tokens false tokens := .accept_none h (.pure _)

theorem settles_expect (what : Expectation) (ht : t.is s = true) :
    Settles (fun _ => expect s what) (t :: tokens) t tokens := .accept ht (.pure _)

theorem settles_skip (what : Expectation) (ht : t.is s = true) :
    Settles (fun _ => skip s what) (t :: tokens) () tokens := .expect ht (.pure _)

theorem settles_sees (ht : t.is s = true) :
    Settles (fun _ => sees s) (t :: tokens) true (t :: tokens) :=
  .of_eq (congrArg (Reply.done · (t :: tokens) []) ht)

theorem settles_sees_none (h : Stops [s] tokens) :
    Settles (fun _ => sees s) tokens false tokens :=
  .bind (p := fun _ => peek?) (.of_eq rfl) (.of_eq (congrArg (Reply.done · tokens []) (by
    cases tokens with
    | nil => rfl
    | cons t ts => simpa using h t rfl)))

end

/-! ### Where a parser goes -/

namespace Leads

protected theorem rfl {p : Nat → Parser α} : Leads p tokens p tokens := ⟨0, fun _ _ => rfl⟩

theorem trans {p q k : Nat → Parser α} (h : Leads p tokens q mid) (h' : Leads q mid k tokens') :
    Leads p tokens k tokens' := by
  obtain ⟨n, hn⟩ := h
  obtain ⟨m, hm⟩ := h'
  exact ⟨max n m, fun fuel hfuel => (hn fuel (by omega)).trans (hm fuel (by omega))⟩

/-- A part that is read leads to what follows it. -/
theorem bind {q : Nat → Parser α} {f : Nat → α → Parser β} {k : Nat → Parser β} {a : α}
    (hq : Settles q tokens a mid) (hf : Leads (fun fuel => f fuel a) mid k tokens') :
    Leads (fun fuel => q fuel >>= f fuel) tokens k tokens' := by
  obtain ⟨n, hn⟩ := hq
  obtain ⟨m, hm⟩ := hf
  refine ⟨max n m, fun fuel hfuel => (bind_done (hn fuel (by omega))).trans ?_⟩
  rw [Reply.after_nil]
  exact hm fuel (by omega)

variable {s : Symbol} {t : Token} {k : Nat → Parser β}

theorem accepts {f : Nat → Bool → Parser β} (ht : t.is s = true)
    (hf : Leads (fun fuel => f fuel true) tokens k tokens') :
    Leads (fun fuel => Parse.accepts s >>= f fuel) (t :: tokens) k tokens' :=
  bind (settles_accepts ht) hf

theorem accepts_none {f : Nat → Bool → Parser β} (h : Stops [s] tokens)
    (hf : Leads (fun fuel => f fuel false) tokens k tokens') :
    Leads (fun fuel => Parse.accepts s >>= f fuel) tokens k tokens' :=
  bind (settles_accepts_none h) hf

theorem expect {f : Nat → Token → Parser β} {what : Expectation} (ht : t.is s = true)
    (hf : Leads (fun fuel => f fuel t) tokens k tokens') :
    Leads (fun fuel => Parse.expect s what >>= f fuel) (t :: tokens) k tokens' :=
  bind (settles_expect what ht) hf

theorem skip {f : Nat → Unit → Parser β} {what : Expectation} (ht : t.is s = true)
    (hf : Leads (fun fuel => f fuel ()) tokens k tokens') :
    Leads (fun fuel => Parse.skip s what >>= f fuel) (t :: tokens) k tokens' :=
  bind (settles_skip what ht) hf

end Leads

/-! ### Where a parser fails -/

namespace Fails

/-- What a parser leads to with one unit of fuel less fails for it. -/
theorem enter {p q : Nat → Parser α} (h : Leads (fun fuel => p (fuel + 1)) tokens q mid)
    (hq : Fails q mid e rest) : Fails p tokens e rest := by
  obtain ⟨n, hn⟩ := h
  obtain ⟨m, hm⟩ := hq
  refine ⟨max n m + 1, fun fuel hfuel => ?_⟩
  obtain ⟨fuel, rfl⟩ := Nat.exists_eq_succ_of_ne_zero (by omega : fuel ≠ 0)
  rw [← hm fuel (by omega)]
  exact hn fuel (by omega)

theorem bind {q : Nat → Parser α} {f : Nat → α → Parser β} (hq : Fails q tokens e rest) :
    Fails (fun fuel => q fuel >>= f fuel) tokens e rest := by
  obtain ⟨n, hn⟩ := hq
  exact ⟨n, fun fuel hfuel => bind_failed (hn fuel hfuel)⟩

/-- After a part that is read. -/
theorem after {q : Nat → Parser α} {f : Nat → α → Parser β} {a : α}
    (hq : Settles q tokens a mid) (hf : Fails (fun fuel => f fuel a) mid e rest) :
    Fails (fun fuel => q fuel >>= f fuel) tokens e rest := by
  obtain ⟨n, hn⟩ := Leads.bind (f := f) hq .rfl
  obtain ⟨m, hm⟩ := hf
  exact ⟨max n m, fun fuel hfuel => (hn fuel (by omega)).trans (hm fuel (by omega))⟩

theorem map {q : Nat → Parser α} {f : α → β} (hq : Fails q tokens e rest) :
    Fails (fun fuel => f <$> q fuel) tokens e rest := by
  simpa only [← bind_pure_comp] using hq.bind (f := fun _ a => pure (f a))

/-- A symbol that has to come is missing. -/
theorem skip {s : Symbol} {what : Expectation} (h : Stops [s] tokens) :
    Fails (fun _ => Parse.skip s what) tokens ⟨tokens.head?, .expected what⟩ tokens := by
  refine ⟨0, fun _ _ => ?_⟩
  cases tokens with
  | nil => rfl
  | cons t ts =>
    have ht : t.is s = false := by simpa using h t rfl
    exact (skip_cons s what t ts).trans (by rw [ht]; rfl)

end Fails

/-! ### What a recovered mistake costs -/

namespace Costs

/-- What a parser leads to with one unit of fuel less costs as much. -/
theorem enter {p q : Nat → Parser α} {mid' : List Token}
    (h : Leads (fun fuel => p (fuel + 1)) tokens q mid)
    (h' : c → Leads (fun fuel => p (fuel + 1)) tokens' q mid') (hq : Costs c e q mid mid') :
    Costs c e p tokens tokens' := by
  obtain ⟨n, hn⟩ := h
  obtain ⟨m, hm⟩ := hq
  by_cases hc : c
  · obtain ⟨n', hn'⟩ := h' hc
    refine ⟨max (max n n') m + 1, fun fuel hfuel => ?_⟩
    obtain ⟨fuel, rfl⟩ := Nat.exists_eq_succ_of_ne_zero (by omega : fuel ≠ 0)
    obtain ⟨r, hr, hr'⟩ := hm fuel (by omega)
    exact ⟨r, (hn fuel (by omega)).trans hr, fun hc => (hn' fuel (by omega)).trans (hr' hc)⟩
  · refine ⟨max n m + 1, fun fuel hfuel => ?_⟩
    obtain ⟨fuel, rfl⟩ := Nat.exists_eq_succ_of_ne_zero (by omega : fuel ≠ 0)
    obtain ⟨r, hr, -⟩ := hm fuel (by omega)
    exact ⟨r, (hn fuel (by omega)).trans hr, fun hc' => absurd hc' hc⟩

/-- What comes after depends on the value and on the tokens that are left, which are the same. -/
theorem bind {q : Nat → Parser α} {f : Nat → α → Parser β} (hq : Costs c e q tokens tokens') :
    Costs c e (fun fuel => q fuel >>= f fuel) tokens tokens' := by
  obtain ⟨n, hn⟩ := hq
  refine ⟨n, fun fuel hfuel => ?_⟩
  obtain ⟨r, hr, hr'⟩ := hn fuel hfuel
  cases r with
  | done a mid reported =>
    refine ⟨(f fuel a mid).after reported, (bind_done hr).trans ?_, fun hc => bind_done (hr' hc)⟩
    rw [← Reply.after_append]
  | failed e' mid reported =>
    exact ⟨.failed e' mid reported, bind_failed hr, fun hc => bind_failed (hr' hc)⟩
  | starved => exact ⟨.starved, bind_starved hr, fun hc => bind_starved (hr' hc)⟩

/-- After a part that is read. -/
theorem after {q : Nat → Parser α} {f : Nat → α → Parser β} {a : α} {mid' : List Token}
    (hq : Settles q tokens a mid) (hq' : c → Settles q tokens' a mid')
    (hf : Costs c e (fun fuel => f fuel a) mid mid') :
    Costs c e (fun fuel => q fuel >>= f fuel) tokens tokens' := by
  obtain ⟨n, hn⟩ := Leads.bind (f := f) hq .rfl
  obtain ⟨m, hm⟩ := hf
  by_cases hc : c
  · obtain ⟨n', hn'⟩ := Leads.bind (f := f) (hq' hc) .rfl
    refine ⟨max (max n n') m, fun fuel hfuel => ?_⟩
    obtain ⟨r, hr, hr'⟩ := hm fuel (by omega)
    exact ⟨r, (hn fuel (by omega)).trans hr, fun hc => (hn' fuel (by omega)).trans (hr' hc)⟩
  · refine ⟨max n m, fun fuel hfuel => ?_⟩
    obtain ⟨r, hr, -⟩ := hm fuel (by omega)
    exact ⟨r, (hn fuel (by omega)).trans hr, fun hc' => absurd hc' hc⟩

/-- A second mistake is recovered as it would be without the first. -/
theorem recover {p : Nat → Parser α} (h : Costs c e p tokens tokens') :
    Costs c e (fun fuel => Parse.recover (p fuel)) tokens tokens' := by
  obtain ⟨n, hn⟩ := h
  refine ⟨n, fun fuel hfuel => ?_⟩
  obtain ⟨r, hr, hr'⟩ := hn fuel hfuel
  simp only [Parse.recover, hr]
  cases r with
  | done a mid reported => exact ⟨_, rfl, fun hc => by rw [hr' hc]⟩
  | failed e' mid reported => exact ⟨_, rfl, fun hc => by rw [hr' hc]⟩
  | starved => exact ⟨.starved, rfl, fun hc => by rw [hr' hc]⟩

end Costs

end Parse

end LoxLang
