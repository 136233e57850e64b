/-
# `ChipEight.Proofs.CommandLine.Reading` — what reading a command line keeps

Tokens take effect one by one: a word becomes the name of the ROM, or a text is set aside,
or the settings change, by a flag or by a value.  What each of these keeps is true of what
is asked for in the end.

So the ROM is named by one of the arguments, and of the two settings that are checked later
the size of a tick is an integer or was given without a value, and the seed likewise, or it
was not given at all.

**Proved here.**

    what each token keeps, reading keeps           (`consume_invariant`)
    words are arguments                            (`mem_of_classify`)
    the ROM is named by an argument                (`rom_mem_of_read`)
    settings that were read have one of few forms  (`readable_of_read`)
-/
import ChipEight.CommandLine.Arguments

namespace ChipEight.CommandLine

/-! ## Tokens -/

theorem candidates_switch {cs : List Char} {p : String × Token} (h : p ∈ candidates cs) :
    ∃ s long attached, p.2 = .switch s long attached := by
  rw [candidates] at h
  split at h
  · rw [abbreviated] at h
    obtain ⟨spelled, -, rfl⟩ := List.mem_map.1 h
    exact ⟨_, _, _, rfl⟩
  · unfold lettered at h
    split at h
    · split at h
      · rw [List.mem_singleton] at h
        exact ⟨_, _, _, congrArg Prod.snd h⟩
      · exact absurd h List.not_mem_nil
    · exact absurd h List.not_mem_nil

theorem exactly_switch {cs : List Char} {attached : Option String} {token : Token}
    (h : exactly cs attached = some token) : ∃ s long attached, token = .switch s long attached := by
  obtain ⟨s, -, rfl⟩ := Option.map_eq_some_iff.1 h
  exact ⟨_, _, _, rfl⟩

theorem eq_of_guess {text word : String} (h : guess text = .ok (.word word)) : word = text := by
  rw [guess] at h
  split at h
  · next spelled token honly =>
      cases h
      obtain ⟨s, long, attached, hswitch⟩ := candidates_switch (honly ▸ List.mem_singleton_self _)
      cases hswitch
  · split at h
    · cases h
      rfl
    · cases h
  · cases h

/-- An argument that is classified as a word is that word. -/
theorem eq_of_classifyOne {text word : String} (h : classifyOne text = .ok (.word word)) :
    word = text := by
  rw [classifyOne] at h
  split at h
  · cases h
    rfl
  · cases h
    rfl
  · next hdash =>
      split at h
      split at h
      · next hspelled =>
          cases h
          obtain ⟨s, long, attached, hswitch⟩ := exactly_switch hspelled
          cases hswitch
      · next hspelled =>
          cases h
          obtain ⟨s, long, attached, hswitch⟩ := exactly_switch hspelled
          cases hswitch
      · exact eq_of_guess h
  · cases h
    rfl

theorem mem_of_classify {argv : List String} : ∀ {tokens : List Token},
    classify argv = .ok tokens → ∀ {word : String}, .word word ∈ tokens → word ∈ argv := by
  induction argv with
  | nil =>
      intro tokens h word hword
      cases h
      cases hword
  | cons text rest ih =>
      intro tokens h word hword
      rw [classify] at h
      split at h
      · cases h
        rcases List.mem_cons.1 hword with hword | hword
        · cases hword
        · obtain ⟨behind, hbehind, heq⟩ := List.mem_map.1 hword
          cases heq
          exact List.mem_cons_of_mem _ hbehind
      · cases htoken : classifyOne text with
        | error e =>
            rw [htoken] at h
            cases h
        | ok token =>
            cases hrest : classify rest with
            | error e =>
                rw [htoken, hrest] at h
                cases h
            | ok others =>
                rw [htoken, hrest] at h
                cases h
                rcases List.mem_cons.1 hword with rfl | hword
                · rw [eq_of_classifyOne htoken]
                  exact List.mem_cons_self
                · exact List.mem_cons_of_mem _ (ih hrest hword)

/-! ## Readings -/

section

variable {P : Reading → Prop} {words : List String}
  (hrom : ∀ {r : Reading} {word : String}, P r → word ∈ words → P { r with rom := some word })
  (haside : ∀ {r : Reading} (text : String), P r → P (r.setAside text))
  (hraise : ∀ {r : Reading} {flags : List Flag} {settings : Settings}, P r →
    r.settings.raise flags = some settings → P { r with settings })
  (hempty : ∀ {r : Reading} (setting : Setting), P r →
    P { r with settings := r.settings.empty setting })
  (hset : ∀ {r : Reading} {setting : Setting} {value : String} {settings : Settings}, P r →
    r.settings.set setting value = .ok settings → P { r with settings })
include hrom haside hraise hempty hset

/-- By induction on the tokens, as they are read; an error or a request for help ends it. -/
theorem consume_invariant {a : Arguments} (r : Reading) (tokens : List Token) :
    P r → (∀ {word}, .word word ∈ tokens → word ∈ words) → r.consume tokens = .ok (.run a) →
    ∃ surplus, P ⟨some a.rom, a.settings, surplus⟩ := by
  have htail {token : Token} {tokens : List Token}
      (h : ∀ {word}, .word word ∈ token :: tokens → word ∈ words) :
      ∀ {word}, .word word ∈ tokens → word ∈ words := fun hword => h (List.mem_cons_of_mem _ hword)
  fun_induction r.consume tokens with
  | case1 r =>
      intro hr _ h
      obtain ⟨rom, settings, surplus⟩ := r
      cases rom with
      | none => cases h
      | some rom =>
          cases surplus with
          | nil =>
              cases h
              exact ⟨_, hr⟩
          | cons text surplus => cases h
  | case2 r text rest hnone ih =>
      intro hr hwords
      exact ih (hrom hr (hwords List.mem_cons_self)) (htail (htail hwords))
  | case3 r text rest rom hsome ih | case7 r text rest rom hsome ih =>
      intro hr hwords
      exact ih (haside _ (haside _ hr)) (htail (htail hwords))
  | case4 r text rest hrest hnone ih =>
      intro hr hwords
      exact ih (hrom hr (hwords List.mem_cons_self)) (htail hwords)
  | case5 r text rest hrest rom hsome ih =>
      intro hr hwords
      exact ih (haside _ hr) (htail hwords)
  | case6 r text rest hnone ih =>
      intro hr hwords
      exact ih (hrom hr (htail hwords List.mem_cons_self)) (htail (htail hwords))
  | case8 r rest hrest ih | case9 r text rest ih =>
      intro hr hwords
      exact ih (haside _ hr) (htail hwords)
  | case12 r first long attached rest flags hcluster settings hraised ih =>
      intro hr hwords
      exact ih (hraise hr hraised) (htail hwords)
  | case14 r setting long value rest settings hattached ih =>
      intro hr hwords
      rw [Settings.setAttached] at hattached
      split at hattached
      · cases hattached
        exact ih (hempty setting hr) (htail hwords)
      · exact ih (hset hr hattached) (htail hwords)
  | case16 r setting long value rest settings hvalue ih =>
      intro hr hwords
      exact ih (hset hr hvalue) (htail (htail hwords))
  | case10 | case11 | case13 | case15 | case17 => exact fun _ _ h => nomatch h

/-- What holds of the empty reading and is kept by every token holds of what is asked for. -/
theorem read_invariant {argv : List String} {a : Arguments} (hwords : argv ⊆ words) (hstart : P {})
    (h : read argv = .ok (.run a)) : ∃ surplus, P ⟨some a.rom, a.settings, surplus⟩ := by
  rw [read] at h
  cases htokens : classify argv with
  | error e =>
      rw [htokens] at h
      cases h
  | ok tokens =>
      rw [htokens] at h
      exact consume_invariant hrom haside hraise hempty hset {} tokens hstart
        (fun hword => hwords (mem_of_classify htokens hword)) h

end

/-! ## The ROM -/

/-- The ROM is named by one of the arguments. -/
theorem rom_mem_of_read {argv : List String} {a : Arguments} (h : read argv = .ok (.run a)) :
    a.rom ∈ argv := by
  let P (r : Reading) : Prop := ∀ rom, r.rom = some rom → rom ∈ argv
  obtain ⟨surplus, hrom⟩ := read_invariant (P := P)
    (fun _ hword rom hsome => Option.some.inj hsome ▸ hword) (fun _ hr => hr) (fun hr _ => hr)
    (fun _ hr => hr) (fun hr _ => hr) (List.Subset.refl argv) nofun h
  exact hrom a.rom rfl

/-! ## The settings -/

/-- The two settings that are checked later are integers, or have no value. -/
structure Settings.Readable (s : Settings) : Prop where
  perTick : (∃ n, s.perTick = .int n) ∨ s.perTick = .list
  seed : s.seed = .null ∨ (∃ n, s.seed = .int n) ∨ s.seed = .list

theorem Settings.Readable.empty {s : Settings} (h : s.Readable) (setting : Setting) :
    (s.empty setting).Readable := by
  cases setting with
  | ticks => exact ⟨h.perTick, h.seed⟩
  | perTick => exact ⟨.inr rfl, h.seed⟩
  | seed => exact ⟨h.perTick, .inr (.inr rfl)⟩
  | keys => exact ⟨h.perTick, h.seed⟩

theorem Settings.Readable.set {s s' : Settings} (h : s.Readable) {setting : Setting}
    {value : String} (hset : s.set setting value = .ok s') : s'.Readable := by
  cases setting with
  | ticks =>
      rw [Settings.set] at hset
      cases hn : integerFor .ticks value <;> rw [hn] at hset <;> cases hset
      exact ⟨h.perTick, h.seed⟩
  | perTick =>
      rw [Settings.set] at hset
      cases hn : integerFor .perTick value <;> rw [hn] at hset <;> cases hset
      exact ⟨.inl ⟨_, rfl⟩, h.seed⟩
  | seed =>
      rw [Settings.set] at hset
      cases hn : integerFor .seed value <;> rw [hn] at hset <;> cases hset
      exact ⟨h.perTick, .inr (.inl ⟨_, rfl⟩)⟩
  | keys =>
      rw [Settings.set] at hset
      cases hk : KeyList.parse value.toList <;> rw [hk] at hset <;> cases hset
      exact ⟨h.perTick, h.seed⟩

theorem Settings.Readable.raise {flags : List Flag} : ∀ {s s' : Settings}, s.Readable →
    s.raise flags = some s' → s'.Readable := by
  induction flags with
  | nil =>
      intro s s' h hraise
      cases hraise
      exact h
  | cons flag flags ih =>
      intro s s' h hraise
      cases flag with
      | help => cases hraise
      | trace | verbose =>
          rw [Settings.raise] at hraise
          refine ih ?_ hraise
          exact ⟨h.perTick, h.seed⟩

theorem readable_of_read {argv : List String} {a : Arguments} (h : read argv = .ok (.run a)) :
    a.settings.Readable := by
  obtain ⟨surplus, hreadable⟩ := read_invariant (P := fun r => r.settings.Readable)
    (fun hr _ => hr) (fun _ hr => hr) (fun hr hraise => hr.raise hraise)
    (fun setting hr => hr.empty setting) (fun hr hset => hr.set hset) (List.Subset.refl argv)
    ⟨.inl ⟨4, rfl⟩, .inl rfl⟩ h
  exact hreadable

end ChipEight.CommandLine
