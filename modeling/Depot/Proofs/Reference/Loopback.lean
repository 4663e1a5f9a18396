import Depot.Proofs.Reference.Canonical

/-! Which registries are spoken to without encryption. It should be those of this machine: `localhost` and the addresses
    that begin with 127. But a registry is known by how its name begins, and the names of other machines may begin so. -/

namespace Depot.Reference
variable {text : String} {r : Reference} {p : Spelling} {name port lead d : List Char} {sep : Char}

/-! ### Machines -/

/-- A registry without its port. -/
def hostOf (registry : List Char) : List Char :=
  match Text.cutLast ':' registry with
  | some (host, _) => host
  | none => registry

/-- The machine of the registry. -/
def host (r : Reference) : List Char := hostOf r.registry.toList

/-- A number from 0 to 255 in base 10. -/
def Octet (cs : List Char) : Prop := ∃ n < 256, cs = Nat.toDigits 10 n

/-- Three numbers between dots. -/
def ThreeOctets (cs : List Char) : Prop := ∃ a b c, Octet a ∧ Octet b ∧ Octet c ∧ cs = a ++ '.' :: (b ++ '.' :: c)

/-- A name of this machine. -/
inductive Loopback : List Char → Prop
  | localhost : Loopback "localhost".toList
  | address {rest : List Char} (hrest : ThreeOctets rest) : Loopback ("127.".toList ++ rest)

/-- A name that begins as those of this machine do and is none of them. -/
inductive Lookalike : List Char → Prop
  | longer {rest : List Char} (hrest : rest ≠ []) : Lookalike ("localhost".toList ++ rest)
  | numbered {rest : List Char} (hrest : ¬ThreeOctets rest) : Lookalike ("127.".toList ++ rest)

theorem Loopback.not_lookalike (h : Loopback name) : ¬Lookalike name := by
  intro hlike
  cases h with
  | localhost =>
    generalize hname : "localhost".toList = name at hlike
    cases hlike with
    | longer hrest => exact hrest (List.append_cancel_left (hname.symm.trans (List.append_nil _).symm))
    | numbered => cases hname
  | @address rest hrest =>
    generalize hname : "127.".toList ++ rest = name at hlike
    cases hlike with
    | longer => cases hname
    | numbered hno => exact hno (List.append_cancel_left hname ▸ hrest)

theorem loopback_or_lookalike_iff :
    Loopback name ∨ Lookalike name ↔ "localhost".toList <+: name ∨ "127.".toList <+: name := by
  constructor
  · rintro ((_ | _) | (_ | _))
    · exact .inl (List.prefix_refl _)
    · exact .inr (List.prefix_append _ _)
    · exact .inl (List.prefix_append _ _)
    · exact .inr (List.prefix_append _ _)
  · rintro (⟨rest, rfl⟩ | ⟨rest, rfl⟩)
    · by_cases hrest : rest = []
      · subst hrest
        exact .inl .localhost
      · exact .inr (.longer hrest)
    · by_cases hrest : ThreeOctets rest
      · exact .inl (.address hrest)
      · exact .inr (.numbered hrest)

/-! ### Ports -/

theorem hostOf_of_notMem (h : ':' ∉ name) : hostOf name = name := by
  unfold hostOf
  rw [Text.cutLast_eq_none_iff.mpr h]

theorem hostOf_append (h : ':' ∉ port) : hostOf (name ++ ':' :: port) = name := by
  unfold hostOf
  rw [Text.cutLast_append h]

/-- An address is a host, with a port behind it or not. -/
theorem host_of_address (h : Grammar.Address d) :
    Grammar.Host (hostOf d) ∧ (d = hostOf d ∨ ∃ port, Grammar.Port port ∧ d = hostOf d ++ ':' :: port) := by
  rcases h with h | ⟨name, port, hname, hport, rfl⟩
  · have hno : ':' ∉ d := mt (h.chars ':') (by decide)
    rw [hostOf_of_notMem hno]
    exact ⟨h, .inl rfl⟩
  · rw [hostOf_append (mt (hport.2 ':') (by decide))]
    exact ⟨hname, .inr ⟨port, hport, rfl⟩⟩

/-- What leads a text that is cut leads what stands before the cut, unless it reaches over it. -/
theorem isPrefix_append_cons_iff (hsep : sep ∉ lead) : lead <+: name ++ sep :: port ↔ lead <+: name := by
  refine ⟨fun h => ?_, fun h => h.trans (List.prefix_append _ _)⟩
  rcases List.prefix_or_prefix_of_prefix h (List.prefix_append name (sep :: port)) with h' | ⟨beyond, rfl⟩
  · exact h'
  · rw [List.prefix_append_right_inj] at h
    cases beyond with
    | nil => simp
    | cons c beyond =>
      obtain rfl := (List.cons_prefix_cons.mp h).1
      exact absurd (by simp) hsep

theorem isPrefix_hostOf_iff (hsep : ':' ∉ lead) (registry : List Char) : lead <+: hostOf registry ↔ lead <+: registry := by
  unfold hostOf
  split
  · next hcut =>
    rw [(Text.cutLast_eq_some_iff.mp hcut).1, isPrefix_append_cons_iff hsep]
  · rfl

theorem isLocal_iff (registry : String) :
    isLocal registry = true ↔ Loopback (hostOf registry.toList) ∨ Lookalike (hostOf registry.toList) := by
  have hlead (lead : List Char) : (Text.after? lead registry.toList).isSome = true ↔ lead <+: registry.toList := by
    rw [Option.isSome_iff_exists]
    exact exists_congr fun rest => Text.after?_eq_some_iff.trans eq_comm
  rw [loopback_or_lookalike_iff, isPrefix_hostOf_iff (by decide), isPrefix_hostOf_iff (by decide), ← hlead, ← hlead]
  exact Bool.or_eq_true_iff

/-! ### Endpoints -/

/-- The registry is spoken to without encryption. -/
def Plain (r : Reference) : Prop := "http://".toList <+: r.endpoint.toList

/-- The registry is spoken to with encryption. -/
def Encrypted (r : Reference) : Prop := "https://".toList <+: r.endpoint.toList

theorem scheme_endpoint (r : Reference) : (r.Plain ↔ Loopback r.host ∨ Lookalike r.host) ∧ (r.Encrypted ↔ ¬r.Plain) := by
  have hlead (scheme : String) : scheme.toList <+: (scheme ++ r.registry).toList := by
    rw [String.toList_append]
    exact List.prefix_append _ _
  unfold host Plain Encrypted endpoint
  rw [← isLocal_iff]
  split
  · next hdefault =>
    rw [hdefault]
    decide
  · split
    · next hlocal =>
      refine ⟨iff_of_true (hlead _) hlocal, iff_of_false ?_ (not_not_intro (hlead _))⟩
      simp
    · next hlocal =>
      have hno : ¬"http://".toList <+: ("https://" ++ r.registry).toList := by simp
      exact ⟨iff_of_false hno hlocal, iff_of_true (hlead _) hno⟩

/-- Every registry of an accepted name is a host with a port or without one. Unless its host is a lookalike, it is spoken
    to without encryption exactly if the host is this machine; but lookalikes are spoken to without encryption too. -/
theorem plain_of_parse (hparse : parse text = .ok r) :
    Grammar.Host r.host ∧ (r.registry.toList = r.host ∨ ∃ port, Grammar.Port port ∧ r.registry.toList = r.host ++ ':' :: port) ∧
    (¬Lookalike r.host → (r.Plain ↔ Loopback r.host)) ∧ (Lookalike r.host → r.Plain ∧ ¬Loopback r.host) ∧
    (r.Encrypted ↔ ¬r.Plain) := by
  obtain ⟨hhost, hport⟩ := host_of_address (isGrammatical_of_parse hparse).registry.1
  obtain ⟨hplain, hencrypted⟩ := scheme_endpoint r
  refine ⟨hhost, hport, fun hno => ?_, fun hlike => ?_, hencrypted⟩
  · rw [hplain, or_iff_left hno]
  · exact ⟨hplain.mpr (.inr hlike), fun hloop => hloop.not_lookalike hlike⟩

/-- The port of `localhost` is no part of its name. -/
theorem plain_of_parse_localhost : parse "localhost:5000/app" = .ok ⟨"localhost:5000", "app", none, none⟩ ∧
    Plain ⟨"localhost:5000", "app", none, none⟩ := by
  have hparse : parse "localhost:5000/app" = .ok ⟨"localhost:5000", "app", none, none⟩ := rfl
  obtain ⟨-, -, hplain, -⟩ := plain_of_parse hparse
  exact ⟨hparse, (hplain Loopback.localhost.not_lookalike).mpr .localhost⟩

/-- Every domain whose host is a lookalike can be written before a path, and is then spoken to without encryption. -/
theorem plain_of_lookalike (h : p.Grammatical) (hdomain : p.domain = some d) (hlike : Lookalike (hostOf d)) :
    ∃ r, parse (String.ofList p.text) = .ok r ∧ r.registry.toList = d ∧ r.Plain ∧ ¬Loopback r.host := by
  have hregistry : p.reference.registry.toList = d := by
    show (String.ofList (p.domain.getD defaultRegistry.toList)).toList = d
    rw [hdomain, String.toList_ofList]
    rfl
  have hhost : Lookalike p.reference.host := by rwa [host, hregistry]
  refine ⟨p.reference, h.parse_eq String.toList_ofList.symm, hregistry, ?_⟩
  exact ⟨(scheme_endpoint _).1.mpr (.inr hhost), fun hloop => hloop.not_lookalike hhost⟩

/-- `localhost.example.com` need not be this machine. -/
theorem plain_localhost_example : ∃ r, parse "localhost.example.com/app" = .ok r ∧ r.Plain ∧ ¬Loopback r.host := by
  have hlike : Lookalike "localhost.example.com".toList := @Lookalike.longer ".example.com".toList (by decide)
  have hplain : Plain ⟨"localhost.example.com", "app", none, none⟩ := by
    unfold Plain
    decide
  exact ⟨⟨"localhost.example.com", "app", none, none⟩, rfl, hplain, fun hloop => hloop.not_lookalike hlike⟩

end Depot.Reference
