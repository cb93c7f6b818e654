import AuditChain.Proofs.AddressNumbers
/-!
# Service addresses are read unambiguously

A run of groups is read back in front of text that does not go on with a group. There are three ways to write the
groups of an IPv6 address; the reader takes each of them, and the printer uses one of them. So a printed address and a
printed endpoint are read back, and as an endpoint starts with a bracket or has a port after the address, no text is
both.
-/

namespace AuditChain.Net

open Scanner

variable {c : Char} {cs rest : List Char}

/-! ## One group -/

theorem group_groupChars (g : UInt16) (h : EndsNumber rest) : group (Ipv6.groupChars g ++ rest) = some (g, rest) := by
  have hlen : (Ipv6.groupChars g).length ≤ 4 := (Nat.length_toDigits_le_iff (by decide) (by decide)).2 g.toNat_lt
  have hnumber : number 16 65536 (fun digits => digits.length ≤ 4) (Ipv6.groupChars g ++ rest) = some (g.toNat, rest) :=
    number_toDigits isRadix_sixteen (decide_eq_true hlen) g.toNat_lt h
  rw [group, bind_of_some hnumber, UInt16.ofNat_toNat]
  rfl

theorem group_of_endsNumber (h : EndsNumber rest) : group rest = none :=
  bind_of_none (number_of_endsNumber isRadix_sixteen h)

theorem ipv4_groupChars (g : UInt16) (h : EndsGroup rest) : ipv4 (Ipv6.groupChars g ++ rest) = none :=
  ipv4_of_digits (isDigit_of_mem_toDigits isRadix_sixteen _) h

/-! ## Runs of groups -/

/-- No group goes on in the text, and none follows in it after a colon. -/
structure EndsRun (cs : List Char) : Prop extends EndsGroup cs where
  next : ∀ after, cs = ':' :: after → EndsGroup after

theorem endsRun_nil : EndsRun [] := ⟨⟨endsNumber_nil, by simp⟩, fun _ h => nomatch h⟩

theorem endsRun_cons (h : isDigit 16 c = false) (hmark : c ≠ '.' ∧ c ≠ ':') (cs : List Char) : EndsRun (c :: cs) :=
  ⟨endsGroup_cons h hmark.1 cs, fun _ hcons => absurd (List.head_eq_of_cons_eq hcons) hmark.2⟩

theorem endsGroup_colon (cs : List Char) : EndsGroup (':' :: cs) := endsGroup_cons (by decide) (by decide) cs

theorem endsRun_colons (cs : List Char) : EndsRun (':' :: ':' :: cs) := by
  refine ⟨endsGroup_colon _, ?_⟩
  rintro after h
  obtain rfl := List.tail_eq_of_cons_eq h
  exact endsGroup_colon cs

/-- The colon in front of a group that is not the first. -/
def lead (first : Bool) : List Char := if first then [] else [':']

/-- Groups as a run has them, with a colon in front of each but the first of all. -/
def listed : (first : Bool) → List UInt16 → List Char
  | _, [] => []
  | first, g :: gs => lead first ++ (Ipv6.groupChars g ++ listed false gs)

theorem joined_eq_listed (gs : List UInt16) : Ipv6.joined gs = listed true gs := by
  induction gs with
  | nil => rfl
  | cons g gs ih =>
    cases gs with
    | nil => exact (List.append_nil _).symm
    | cons h gs =>
      rw [Ipv6.joined, ih]
      · rfl
      · simp

theorem joined_cons (g : UInt16) (gs : List UInt16) : Ipv6.joined (g :: gs) = Ipv6.groupChars g ++ listed false gs :=
  joined_eq_listed (g :: gs)

theorem EndsRun.listed_append (h : EndsRun rest) (gs : List UInt16) : EndsGroup (listed false gs ++ rest) := by
  cases gs with
  | nil => exact h.toEndsGroup
  | cons g gs => exact endsGroup_colon _

section Separated

variable {α : Type} {scan : Scanner α}

theorem separated_lead (scan : Scanner α) (first : Bool) (cs : List Char) :
    separated first scan (lead first ++ cs) = scan cs := by
  cases first with
  | true => rfl
  | false => exact bind_of_some (char_cons ..)

theorem separated_of_endsRun (h : EndsRun rest) (first : Bool) (hscan : ∀ cs, EndsGroup cs → scan cs = none) :
    separated first scan rest = none := by
  cases first with
  | true => exact hscan rest h.toEndsGroup
  | false =>
    by_cases hcolon : rest.head? = some ':'
    · obtain ⟨after, rfl⟩ := List.head?_eq_some_iff.1 hcolon
      exact (separated_lead scan false after).trans (hscan after (h.next after rfl))
    · exact bind_of_none (char_eq_none hcolon)

end Separated

variable {room : Nat} {first : Bool} {gs : List UInt16}

theorem groupRun_of_endsRun (h : EndsRun rest) (room : Nat) (first : Bool) :
    groupRun room first rest = ([], false, rest) := by
  cases room with
  | zero => rfl
  | succ room =>
    have hipv4 : separated first ipv4 rest = none := separated_of_endsRun h first fun _ => ipv4_of_endsGroup
    have hgroup : separated first group rest = none :=
      separated_of_endsRun h first fun _ hcs => group_of_endsNumber hcs.number
    rw [groupRun, hipv4, hgroup, ite_self]

theorem groupRun_group (g : UInt16) (h : EndsGroup rest) :
    groupRun (room + 1) first (lead first ++ (Ipv6.groupChars g ++ rest)) =
      let (more, endsInIpv4, rest) := groupRun room false rest
      (g :: more, endsInIpv4, rest) := by
  rw [groupRun, separated_lead, separated_lead, ipv4_groupChars g h, group_groupChars g h.number, ite_self]

theorem groupRun_ipv4 (ip : Ipv4) (hroom : room ≠ 0) (h : EndsNumber rest) :
    groupRun (room + 1) first (lead first ++ (ip.chars ++ rest)) = (groupsOf ip, true, rest) := by
  rw [groupRun, separated_lead, ipv4_chars ip h, if_neg hroom]

theorem groupRun_listed (hlen : gs.length ≤ room) (h : EndsRun rest) :
    groupRun room first (listed first gs ++ rest) = (gs, false, rest) := by
  induction gs generalizing room first with
  | nil => exact groupRun_of_endsRun h room first
  | cons g gs ih =>
    obtain ⟨room, rfl⟩ : ∃ k, room = k + 1 := Nat.exists_eq_add_one.2 (Nat.zero_lt_of_lt hlen)
    rw [listed, List.append_assoc, List.append_assoc, groupRun_group g (h.listed_append gs),
      ih (Nat.le_of_succ_le_succ hlen)]

theorem groupRun_joined (hlen : gs.length ≤ room) (h : EndsRun rest) :
    groupRun room true (Ipv6.joined gs ++ rest) = (gs, false, rest) := by
  rw [joined_eq_listed]
  exact groupRun_listed hlen h

theorem ipv4_joined (gs : List UInt16) (h : EndsRun rest) : ipv4 (Ipv6.joined gs ++ rest) = none := by
  cases gs with
  | nil => exact ipv4_of_endsGroup h.toEndsGroup
  | cons g gs =>
    rw [joined_cons g gs, List.append_assoc]
    exact ipv4_groupChars g (h.listed_append gs)

/-! ## IPv6 -/

namespace Ipv6

/-- The ways to write the groups of an address: all of them, all but zeros in one place, or with the IPv4 address that
they stand for. -/
inductive Form : List UInt16 → List Char → Prop
  | full (groups : List UInt16) : Form groups (joined groups)
  | shortened (front back : List UInt16) (zeros : Nat) :
    Form (front ++ List.replicate (zeros + 1) 0 ++ back) (joined front ++ ':' :: ':' :: joined back)
  | mapped (ip : Ipv4) : Form ([0, 0, 0, 0, 0, 0xffff] ++ groupsOf ip) ("::ffff:".toList ++ ip.chars)

/-! ### Each form is read -/

variable {groups : List UInt16}

theorem ofGroups?_of_length (h : groups.length = 8) : ofGroups? groups = some ⟨groups, h⟩ := dif_pos h

theorem ipv6_of_all (hlen : groups.length = 8) (hrun : groupRun 8 true cs = (groups, false, rest)) :
    ipv6 cs = some (⟨groups, hlen⟩, rest) := by
  simp [ipv6, hrun, hlen, ofGroups?_of_length]

theorem ipv6_of_colons {after : List Char} {front back : List UInt16} {endsInIpv4 : Bool} (hlen : groups.length = 8)
    (hfront : groupRun 8 true cs = (front, false, ':' :: ':' :: after)) (hlt : front.length < 8)
    (hback : groupRun (7 - front.length) true after = (back, endsInIpv4, rest))
    (hgroups : front ++ List.replicate (8 - front.length - back.length) 0 ++ back = groups) :
    ipv6 cs = some (⟨groups, hlen⟩, rest) := by
  simp only [ipv6, hfront]
  rw [if_neg (by omega), if_neg (by simp)]
  simp only [hback, hgroups, ofGroups?_of_length hlen, Option.map_some]

theorem Form.ipv6_append (hform : Form groups cs) (hlen : groups.length = 8) (h : EndsRun rest) :
    ipv6 (cs ++ rest) = some (⟨groups, hlen⟩, rest) := by
  cases hform with
  | full => exact ipv6_of_all hlen (groupRun_joined (Nat.le_of_eq hlen) h)
  | shortened front back zeros =>
    have hsum : front.length + (zeros + 1 + back.length) = 8 := by simpa using hlen
    have hzeros : 8 - front.length - back.length = zeros + 1 := by omega
    rw [List.append_assoc]
    refine ipv6_of_colons hlen (groupRun_joined (by omega) (endsRun_colons _)) (by omega)
      (groupRun_joined (by omega) h) ?_
    rw [hzeros]
  | mapped ip =>
    have hdotted : groupRun 6 false (':' :: (ip.chars ++ rest)) = (groupsOf ip, true, rest) :=
      groupRun_ipv4 ip (by decide) h.number
    have hback : groupRun 7 true (lead true ++ (groupChars 0xffff ++ ':' :: (ip.chars ++ rest))) =
        (0xffff :: groupsOf ip, true, rest) := by
      rw [groupRun_group 0xffff (endsGroup_colon _), hdotted]
    exact ipv6_of_colons hlen (groupRun_of_endsRun (endsRun_colons _) 8 true) (by decide) hback rfl

theorem Form.ipv4_append (hform : Form groups cs) (h : EndsRun rest) : ipv4 (cs ++ rest) = none := by
  cases hform with
  | full => exact ipv4_joined groups h
  | shortened front back zeros =>
    rw [List.append_assoc]
    exact ipv4_joined front (endsRun_colons _)
  | mapped ip => exact ipv4_joined [] (endsRun_colons _)

/-! ### What is printed is one of the forms -/

theorem group_of_octets (g : UInt16) : (g >>> 8).toUInt8.toUInt16 <<< 8 ||| g.toUInt8.toUInt16 = g := by
  have hg := g.toNat_lt
  have hhigh : ((g >>> 8).toUInt8.toUInt16 <<< 8).toNat = (g.toNat / 256) <<< 8 := by
    simp [Nat.shiftRight_eq_div_pow, Nat.shiftLeft_eq]
    omega
  have hlow : g.toUInt8.toUInt16.toNat = g.toNat % 256 := by simp
  apply UInt16.toNat_inj.1
  rw [UInt16.toNat_or, hhigh, hlow, ← Nat.shiftLeft_add_eq_or_of_lt (Nat.mod_lt _ (by decide)), Nat.shiftLeft_eq]
  exact Nat.div_add_mod' g.toNat 256

theorem groups_of_mapped? {ip : Ipv6} {v4 : Ipv4} (h : ip.mapped? = some v4) :
    ip.groups = [0, 0, 0, 0, 0, 0xffff] ++ groupsOf v4 := by
  unfold mapped? at h
  split at h
  · rename_i high low hgroups
    obtain rfl := Option.some.inj h
    rw [hgroups, groupsOf, group_of_octets, group_of_octets]
    rfl
  · cases h

theorem drop_eq_zeros (groups : List UInt16) (i : Nat) :
    groups.drop i = List.replicate (zerosFrom groups i) 0 ++ groups.drop (i + zerosFrom groups i) := by
  have hzeros : (groups.drop i).takeWhile (· == 0) = List.replicate (zerosFrom groups i) 0 :=
    List.eq_replicate_of_mem fun g hg => eq_of_beq (List.all_eq_true.1 List.all_takeWhile g hg)
  have hsplit : groups.drop i = List.replicate (zerosFrom groups i) 0 ++ (groups.drop i).dropWhile (· == 0) := by
    rw [← hzeros, List.takeWhile_append_dropWhile]
  have hrest : (groups.drop i).drop (zerosFrom groups i) = (groups.drop i).dropWhile (· == 0) :=
    (congrArg (List.drop (zerosFrom groups i)) hsplit).trans (List.drop_left' List.length_replicate)
  rw [← List.drop_drop, hrest]
  exact hsplit

-- Reading back needs no more of the longest run than that it is one.
theorem longestZeros_eq (groups : List UInt16) :
    (longestZeros groups).2 = 0 ∨ (longestZeros groups).2 = zerosFrom groups (longestZeros groups).1 := by
  refine List.foldlRecOn (motive := fun best : Nat × Nat => best.2 = 0 ∨ best.2 = zerosFrom groups best.1) _ _
    (.inl rfl) fun best hbest i _ => ?_
  split
  · exact .inr rfl
  · exact hbest

/-- The zeros that are left out stand between the groups before and after them. -/
theorem groups_of_longestZeros (h : 2 ≤ (longestZeros groups).2) :
    ∃ zeros, (longestZeros groups).2 = zeros + 1 ∧
      groups = groups.take (longestZeros groups).1 ++ List.replicate (zeros + 1) 0 ++
        groups.drop ((longestZeros groups).1 + (zeros + 1)) := by
  obtain ⟨zeros, hzeros⟩ : ∃ zeros, (longestZeros groups).2 = zeros + 1 := Nat.exists_eq_add_one.2 (by omega)
  have hrun : zerosFrom groups (longestZeros groups).1 = zeros + 1 := by
    rw [← hzeros]
    exact ((longestZeros_eq groups).resolve_left (by omega)).symm
  have hdrop := drop_eq_zeros groups (longestZeros groups).1
  rw [hrun] at hdrop
  refine ⟨zeros, hzeros, ?_⟩
  rw [List.append_assoc, ← hdrop, List.take_append_drop]

theorem form_chars (ip : Ipv6) : Form ip.groups ip.chars := by
  unfold chars
  split
  · rename_i v4 hmapped
    rw [groups_of_mapped? hmapped]
    exact .mapped v4
  · dsimp only
    split
    · exact .full _
    · rename_i hlong
      obtain ⟨zeros, hzeros, hgroups⟩ := groups_of_longestZeros (Nat.le_of_not_lt hlong)
      have hform := Form.shortened (ip.groups.take (longestZeros ip.groups).1)
        (ip.groups.drop ((longestZeros ip.groups).1 + (zeros + 1))) zeros
      rwa [← hgroups, ← hzeros] at hform

theorem ipv6_chars (ip : Ipv6) (h : EndsRun rest) : ipv6 (ip.chars ++ rest) = some (ip, rest) :=
  (form_chars ip).ipv6_append ip.length_groups h

theorem ipv4_chars (ip : Ipv6) (h : EndsRun rest) : ipv4 (ip.chars ++ rest) = none := (form_chars ip).ipv4_append h

end Ipv6

/-! ## Addresses -/

/-- An address alone is read back. -/
theorem Ip.ofChars?_chars (ip : Ip) : ofChars? ip.chars = some ip := by
  rw [ofChars?, whole?_eq_some_iff, Net.ip, orElse_eq]
  cases ip with
  | v4 ip =>
    have hip : ipv4 ip.chars = some (ip, []) := by simpa using ipv4_chars ip endsNumber_nil
    rw [chars, map_of_some hip, Option.some_or]
  | v6 ip =>
    have hipv4 : ipv4 ip.chars = none := by simpa using ip.ipv4_chars endsRun_nil
    have hip : ipv6 ip.chars = some (ip, []) := by simpa using ip.ipv6_chars endsRun_nil
    rw [chars, map_of_none hipv4, map_of_some hip, Option.none_or]

theorem endsRun_bracket (cs : List Char) : EndsRun ('[' :: cs) := endsRun_cons (by decide) (by decide) cs

theorem ip_of_bracket (cs : List Char) : ip ('[' :: cs) = none := by
  have hends := endsRun_bracket cs
  have hipv6 : ipv6 ('[' :: cs) = none := by simp [ipv6, groupRun_of_endsRun hends]
  rw [ip, orElse_eq, map_of_none (ipv4_of_endsGroup hends.toEndsGroup), map_of_none hipv6, Option.none_or]

/-! ## Endpoints -/

theorem port_chars (p : UInt16) : port (':' :: decimal p.toNat) = some (p, []) := by
  have hnumber : number 10 65536 anyForm (decimal p.toNat ++ []) = some (p.toNat, []) :=
    number_toDigits isRadix_ten rfl p.toNat_lt endsNumber_nil
  rw [List.append_nil] at hnumber
  rw [port, bind_of_some (char_cons ..), bind_of_some hnumber, UInt16.ofNat_toNat]
  rfl

theorem scope_chars (s : UInt32) (h : EndsNumber rest) : scope ('%' :: (decimal s.toNat ++ rest)) = some (s, rest) := by
  have hnumber : number 10 4294967296 anyForm (decimal s.toNat ++ rest) = some (s.toNat, rest) :=
    number_toDigits isRadix_ten rfl s.toNat_lt h
  rw [scope, bind_of_some (char_cons ..), bind_of_some hnumber, UInt32.ofNat_toNat]
  rfl

/-- The scope, which is not printed if it is zero, is read back in front of the bracket. -/
theorem scope_or_zero_chars (s : UInt32) (cs : List Char) :
    (scope <|> pure 0 : Scanner UInt32) ((if s = 0 then [] else '%' :: decimal s.toNat) ++ ']' :: cs) =
      some (s, ']' :: cs) := by
  rw [orElse_eq]
  split
  · rename_i hzero
    have hscope : scope (']' :: cs) = none := bind_of_none (char_eq_none (by simp))
    rw [List.nil_append, hscope, hzero]
    rfl
  · have hscope : scope ('%' :: (decimal s.toNat ++ ']' :: cs)) = some (s, ']' :: cs) :=
      scope_chars s (endsNumber_cons (by decide) cs)
    rw [List.cons_append, hscope, Option.some_or]

theorem endsRun_scope (s : UInt32) (cs : List Char) :
    EndsRun ((if s = 0 then [] else '%' :: decimal s.toNat) ++ ']' :: cs) := by
  split
  · exact endsRun_cons (by decide) (by decide) cs
  · exact endsRun_cons (by decide) (by decide) _

namespace Endpoint

theorem endpointV4_chars (ip : Ipv4) (p : UInt16) : endpointV4 (v4 ip p).chars = some (v4 ip p, []) := by
  have hip : ipv4 (v4 ip p).chars = some (ip, ':' :: decimal p.toNat) := ipv4_chars ip (endsNumber_cons (by decide) _)
  rw [endpointV4, bind_of_some hip, bind_of_some (port_chars p)]
  rfl

theorem endpointV4_of_bracket (cs : List Char) : endpointV4 ('[' :: cs) = none :=
  bind_of_none (ipv4_of_endsGroup (endsRun_bracket cs).toEndsGroup)

theorem endpointV6_chars (ip : Ipv6) (s : UInt32) (p : UInt16) : endpointV6 (v6 ip s p).chars = some (v6 ip s p, []) := by
  rw [chars, endpointV6, bind_of_some (char_cons ..), bind_of_some (ip.ipv6_chars (endsRun_scope s _)),
    bind_of_some (scope_or_zero_chars s _), bind_of_some (char_cons ..), bind_of_some (port_chars p)]
  rfl

/-- An endpoint is read back. -/
theorem ofChars?_chars (e : Endpoint) : ofChars? e.chars = some e := by
  rw [ofChars?, whole?_eq_some_iff, orElse_eq]
  cases e with
  | v4 ip p => rw [endpointV4_chars, Option.some_or]
  | v6 ip s p => rw [chars, endpointV4_of_bracket, Option.none_or, ← chars, endpointV6_chars]

/-- Its text is read as the endpoint. -/
theorem ofText?_toText (e : Endpoint) : ofText? e.toText = some e := by
  rw [ofText?, toText, String.toList_ofList, ofChars?_chars]

/-! ### An endpoint is no address alone -/

theorem ip_of_endpointV4 {e : Endpoint} (h : endpointV4 cs = some (e, rest)) :
    ∃ a after, ip cs = some (a, after) ∧ after ≠ [] := by
  obtain ⟨⟨v4, after⟩, hv4, h⟩ := Option.bind_eq_some_iff.1 h
  obtain ⟨⟨p, _⟩, hport, -⟩ := Option.bind_eq_some_iff.1 h
  refine ⟨.v4 v4, after, ?_, ?_⟩
  · rw [ip, orElse_eq, map_of_some hv4, Option.some_or]
  · rintro rfl
    cases hport

theorem bracket_of_endpointV6 {e : Endpoint} (h : endpointV6 cs = some (e, rest)) : ∃ tail, cs = '[' :: tail := by
  rw [← List.head?_eq_some_iff]
  by_contra hhead
  have hnone : endpointV6 cs = none := bind_of_none (char_eq_none hhead)
  exact Option.some_ne_none _ (h.symm.trans hnone)

/-- No text is both an endpoint and an address alone. -/
theorem ofChars?_eq_none_or (cs : List Char) : ofChars? cs = none ∨ Ip.ofChars? cs = none := by
  cases h : ofChars? cs with
  | none => exact .inl rfl
  | some e =>
    refine .inr (Option.eq_none_iff_forall_ne_some.2 fun a ha => ?_)
    have hip : ip cs = some (a, []) := whole?_eq_some_iff.1 ha
    rw [ofChars?, whole?_eq_some_iff, orElse_eq, Option.or_eq_some_iff] at h
    rcases h with hv4 | ⟨-, hv6⟩
    · obtain ⟨b, after, hb, hafter⟩ := ip_of_endpointV4 hv4
      cases hip.symm.trans hb
      exact hafter rfl
    · obtain ⟨tail, rfl⟩ := bracket_of_endpointV6 hv6
      exact Option.some_ne_none _ (hip.symm.trans (ip_of_bracket tail))

/-! ## Main theorem -/

/-- A printed endpoint is read as itself whatever the default port, and a printed address alone with the default port.
No text is both, so it does not matter which is tried first. -/
theorem service_unambiguous :
    (∀ (e : Endpoint) (d : UInt16), ofService? d e.chars = some e) ∧
    (∀ (ip : Ip) (d : UInt16), ofService? d ip.chars = some (ip.withPort d)) ∧
    (∀ cs, ofChars? cs = none ∨ Ip.ofChars? cs = none) ∧
    ∀ cs d, ofService? d cs = ((Ip.ofChars? cs).map (·.withPort d)).or (ofChars? cs) := by
  refine ⟨fun e d => ?_, fun ip d => ?_, ofChars?_eq_none_or, fun cs d => ?_⟩
  · rw [ofService?, ofChars?_chars, Option.some_or]
  · have hendpoint : ofChars? ip.chars = none :=
      (ofChars?_eq_none_or ip.chars).resolve_right (by simp [Ip.ofChars?_chars])
    rw [ofService?, hendpoint, Ip.ofChars?_chars, Option.none_or, Option.map_some]
  · rw [ofService?]
    rcases ofChars?_eq_none_or cs with h | h
    · rw [h, Option.none_or, Option.or_none]
    · rw [h, Option.map_none, Option.none_or, Option.or_none]

/-- Of the two runs of zeros the longer one is left out; in brackets come a scope and a port. -/
example : let ip : Ipv6 := ⟨[1, 0, 0, 2, 0, 0, 0, 3], rfl⟩
    (v6 ip 4 8080).chars = "[1:0:0:2::3%4]:8080".toList ∧
      ofService? 7 "1:0:0:2::3".toList = some (v6 ip 0 7) := by decide +kernel

end Endpoint

end AuditChain.Net
