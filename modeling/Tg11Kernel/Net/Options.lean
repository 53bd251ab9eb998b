import Tg11Kernel.Net.Dhcp

/-! DHCP options. The options area is a sequence of options, each a tag, a length and a value,
with pad bytes between them and an end mark behind the last one. The parser keeps in step with
the sequence, so that what it takes of a tag is the last value that is long enough. -/

namespace Tg11Kernel.Net

open Lib Exec

/-! ### The sequence of options -/

structure DhcpOption where
  tag : UInt8
  value : Bytes

/-- An area holds a sequence of complete options. -/
inductive Area : List DhcpOption → Bytes → Prop
  | empty : Area [] []
  | stop (rest : Bytes) : Area [] (255 :: rest)
  | cutTag {tag : UInt8} (htag : tag ≠ 0 ∧ tag ≠ 255) : Area [] [tag]
  | cutValue {tag len : UInt8} {value : Bytes} (htag : tag ≠ 0 ∧ tag ≠ 255) (hlen : value.length < len.toNat) : Area [] (tag :: len :: value)
  | pad {options : List DhcpOption} {bytes : Bytes} (h : Area options bytes) : Area options (0 :: bytes)
  | option {tag len : UInt8} {value : Bytes} {options : List DhcpOption} {bytes : Bytes} (htag : tag ≠ 0 ∧ tag ≠ 255)
      (hlen : value.length = len.toNat) (h : Area options bytes) : Area (⟨tag, value⟩ :: options) (tag :: len :: (value ++ bytes))

/-- Every area holds a sequence of options. -/
theorem exists_area (opts : Bytes) : ∃ options, Area options opts := by
  induction hn : opts.length using Nat.strong_induction_on generalizing opts with
  | _ n ih =>
    cases opts with
    | nil => exact ⟨[], .empty⟩
    | cons tag rest =>
      rw [List.length_cons] at hn
      by_cases hpad : tag = 0
      · subst hpad
        obtain ⟨options, h⟩ := ih rest.length (by omega) rest rfl
        exact ⟨options, h.pad⟩
      · by_cases hend : tag = 255
        · subst hend
          exact ⟨[], .stop rest⟩
        · cases rest with
          | nil => exact ⟨[], .cutTag ⟨hpad, hend⟩⟩
          | cons len rest =>
            rw [List.length_cons] at hn
            by_cases hlen : rest.length < len.toNat
            · exact ⟨[], .cutValue ⟨hpad, hend⟩ hlen⟩
            · have hdrop : (rest.drop len.toNat).length = rest.length - len.toNat := List.length_drop
              have htake : (rest.take len.toNat).length = len.toNat := by
                rw [List.length_take]
                omega
              obtain ⟨options, h⟩ := ih (rest.drop len.toNat).length (by omega) _ rfl
              have harea := Area.option ⟨hpad, hend⟩ htake h
              rw [List.take_append_drop] at harea
              exact ⟨_, harea⟩

variable {options : List DhcpOption} {opts value rest : Bytes} {i fuel : ℕ}

/-- The sequence is determined by the area. -/
theorem Area.unique {options' : List DhcpOption} (h : Area options opts) (h' : Area options' opts) :
    options = options' := by
  induction h generalizing options' with
  | empty => cases h'; rfl
  | stop rest =>
    cases h' with
    | stop => rfl
    | cutTag htag => exact absurd rfl htag.2
    | cutValue htag => exact absurd rfl htag.2
    | option htag => exact absurd rfl htag.2
  | cutTag htag =>
    cases h' with
    | stop => rfl
    | cutTag => rfl
    | pad => exact absurd rfl htag.1
  | cutValue htag hlen =>
    generalize hopts : _ :: _ :: _ = opts at h'
    cases h' with
    | stop => rfl
    | cutValue => rfl
    | empty => rfl
    | cutTag => rfl
    | pad =>
      cases hopts
      exact absurd rfl htag.1
    | option _ hlen' =>
      cases hopts
      rw [List.length_append] at hlen
      omega
  | pad _ ih =>
    cases h' with
    | cutTag htag => exact absurd rfl htag.1
    | cutValue htag => exact absurd rfl htag.1
    | pad h' => exact ih h'
    | option htag => exact absurd rfl htag.1
  | @option tag len value options bytes htag hlen _ ih =>
    generalize hopts : tag :: len :: (value ++ bytes) = opts at h'
    cases h' with
    | empty => cases hopts
    | stop =>
      cases hopts
      exact absurd rfl htag.2
    | cutTag => cases hopts
    | cutValue _ hlen' =>
      cases hopts
      rw [List.length_append] at hlen'
      omega
    | pad =>
      cases hopts
      exact absurd rfl htag.1
    | @option _ _ value' _ bytes' _ hlen' h' =>
      obtain ⟨rfl, rfl, hjoin⟩ : _ ∧ _ ∧ value ++ bytes = value' ++ bytes' := by simpa using hopts
      obtain ⟨rfl, rfl⟩ := List.append_inj hjoin (hlen.trans hlen'.symm)
      rw [ih h']

/-- The last value of a tag that has so many bytes. -/
def lastValue (tag : UInt8) (size : ℕ) (options : List DhcpOption) : Option Bytes :=
  ((options.filter fun o => o.tag = tag ∧ size ≤ o.value.length).getLast?).map DhcpOption.value

/-- The first four bytes of the last value of a tag, or what is there without one. -/
def lastAddress (tag : UInt8) (options : List DhcpOption) (ip : Ip) : Ip :=
  ((lastValue tag 4 options).bind fun value => ipAt value 0).getD ip

def lastType (options : List DhcpOption) : UInt8 := ((lastValue 53 1 options).bind List.head?).getD 0

theorem lastValue_concat (tag : UInt8) (size : ℕ) (options : List DhcpOption) (o : DhcpOption) :
    lastValue tag size (options ++ [o]) = if o.tag = tag ∧ size ≤ o.value.length then some o.value else lastValue tag size options := by
  unfold lastValue
  rw [List.filter_append]
  by_cases h : o.tag = tag ∧ size ≤ o.value.length
  · rw [if_pos h, List.filter_cons_of_pos (by simpa using h)]
    simp
  · rw [if_neg h, List.filter_cons_of_neg (by simpa using h)]
    simp

/-! ### One option after the other -/

/-- What an option does to the message type and the addresses so far. -/
def takeOption (x : UInt8 × DhcpOptions) (o : DhcpOption) : UInt8 × DhcpOptions :=
  if o.tag = 53 then (if 1 ≤ o.value.length then (o.value.headD 0, x.2) else x)
  else if isAddressOption o.tag = true ∧ 4 ≤ o.value.length then
    match ipAt o.value 0 with
    | some ip => (x.1, DhcpOptions.set o.tag ip x.2)
    | none => x
  else x

theorem ipAt_value (h : 4 ≤ value.length) : ∃ ip, ipAt value 0 = some ip := by
  match value, h with
  | b0 :: b1 :: b2 :: b3 :: rest, _ => exact ⟨⟨b0, b1, b2, b3⟩, rfl⟩

theorem getElem?_of_drop (h : opts.drop i = value ++ rest) {j : ℕ} (hj : j < value.length) :
    opts[i + j]? = value[j]? := by
  rw [← List.getElem?_drop, h, List.getElem?_append_left hj]

theorem ipAt_drop (h : opts.drop i = value ++ rest) (hlen : 4 ≤ value.length) :
    ipAt opts i = ipAt value 0 := by
  have h0 := getElem?_of_drop h (show 0 < value.length by omega)
  have h1 := getElem?_of_drop h (show 1 < value.length by omega)
  have h2 := getElem?_of_drop h (show 2 < value.length by omega)
  have h3 := getElem?_of_drop h (show 3 < value.length by omega)
  rw [Nat.add_zero] at h0
  unfold ipAt
  rw [h0, h1, h2, h3]

theorem readOption_eq (h : opts.drop i = value ++ rest) (tag msgType : UInt8) (o : DhcpOptions) :
    readOption opts tag i value.length msgType o =
      (.ok (takeOption (msgType, o) ⟨tag, value⟩).1, (takeOption (msgType, o) ⟨tag, value⟩).2) := by
  unfold readOption takeOption
  dsimp only
  by_cases htype : tag = 53
  · rw [if_pos htype, if_pos htype]
    cases value with
    | nil => rfl
    | cons b value =>
      have hb : u8 opts i = some b := getElem?_of_drop h (show 0 < (b :: value).length by simp)
      rw [if_pos (by simp), if_pos (by simp), hb]
      rfl
  · rw [if_neg htype, if_neg htype]
    by_cases haddr : isAddressOption tag = true ∧ value.length ≥ 4
    · obtain ⟨ip, hip⟩ := ipAt_value haddr.2
      rw [if_pos haddr, if_pos haddr, ipAt_drop h haddr.2, hip]
      rfl
    · rw [if_neg haddr, if_neg haddr]
      rfl

/-- The loop takes the options of the area from its position on. -/
theorem dhcpOptions_area {bytes : Bytes} (harea : Area options bytes) (hi : opts.drop i = bytes)
    (hfuel : bytes.length < fuel) (msgType : UInt8) (o : DhcpOptions) : dhcpOptions opts fuel i msgType o =
      (.ok (options.foldl takeOption (msgType, o)).1, (options.foldl takeOption (msgType, o)).2) := by
  have hlength (i : ℕ) (bytes : Bytes) (hi : opts.drop i = bytes) : bytes.length = opts.length - i := by rw [← hi, List.length_drop]
  have hstart {i : ℕ} {tag : UInt8} {bytes : Bytes} (hi : opts.drop i = tag :: bytes) :
      i < opts.length ∧ u8 opts i = some tag ∧ opts.drop (i + 1) = bytes := by
    have hlen := hlength i _ hi
    rw [List.length_cons] at hlen
    have htag : opts.drop i = [tag] ++ bytes := hi
    refine ⟨by omega, getElem?_of_drop htag (Nat.one_pos), ?_⟩
    rw [← List.drop_drop, hi, List.drop_one, List.tail_cons]
  induction harea generalizing i fuel msgType o with
  | empty =>
    cases fuel with
    | zero => omega
    | succ fuel =>
      have hlen := hlength i [] hi
      rw [List.length_nil] at hlen
      rw [dhcpOptions, if_neg (by omega)]
      rfl
  | stop rest =>
    cases fuel with
    | zero => omega
    | succ fuel =>
      obtain ⟨hlt, htag, -⟩ := hstart hi
      rw [dhcpOptions, if_pos hlt, htag, ofOption_some, pure_bind_eq, if_pos rfl]
      rfl
  | cutTag htag =>
    cases fuel with
    | zero => omega
    | succ fuel =>
      obtain ⟨hlt, hget, hnext⟩ := hstart hi
      have hlen := hlength (i + 1) [] hnext
      rw [List.length_nil] at hlen
      rw [dhcpOptions, if_pos hlt, hget, ofOption_some, pure_bind_eq, if_neg htag.2, if_neg htag.1, if_pos (by omega)]
      rfl
  | @cutValue tag len value htag hcut =>
    cases fuel with
    | zero => omega
    | succ fuel =>
      obtain ⟨hlt, hget, hnext⟩ := hstart hi
      obtain ⟨hlt', hget', hvalue⟩ := hstart hnext
      have hlen := hlength (i + 1 + 1) value hvalue
      rw [dhcpOptions, if_pos hlt, hget, ofOption_some, pure_bind_eq, if_neg htag.2, if_neg htag.1, if_neg (by omega), hget', ofOption_some,
        pure_bind_eq, if_pos (by omega)]
      rfl
  | pad _ ih =>
    cases fuel with
    | zero => omega
    | succ fuel =>
      obtain ⟨hlt, hget, hnext⟩ := hstart hi
      rw [dhcpOptions, if_pos hlt, hget, ofOption_some, pure_bind_eq, if_neg (by decide), if_pos rfl]
      exact ih hnext (by simpa using hfuel) msgType o
  | @option tag len value options bytes htag hcount _ ih =>
    cases fuel with
    | zero => omega
    | succ fuel =>
      obtain ⟨hlt, hget, hnext⟩ := hstart hi
      obtain ⟨hlt', hget', hvalue⟩ := hstart hnext
      have hlen := hlength (i + 1 + 1) _ hvalue
      rw [List.length_append] at hlen
      have hrest : opts.drop (i + 2 + len.toNat) = bytes := by
        rw [← List.drop_drop, hvalue, ← hcount, List.drop_left]
      simp only [List.length_cons, List.length_append] at hfuel
      rw [dhcpOptions, if_pos hlt, hget, ofOption_some, pure_bind_eq, if_neg htag.2, if_neg htag.1, if_neg (by omega), hget', ofOption_some,
        pure_bind_eq, if_neg (by omega), ← hcount, bind_ok (readOption_eq hvalue tag msgType o), hcount]
      exact ih hrest (by omega) _ _

theorem foldl_takeOption_type (options : List DhcpOption) (o : DhcpOptions) : (options.foldl takeOption (0, o)).1 = lastType options := by
  induction options using List.reverseRecOn with
  | nil => rfl
  | append_singleton options x ih =>
    rw [List.foldl_append, List.foldl_cons, List.foldl_nil, lastType, lastValue_concat, takeOption]
    by_cases htype : x.tag = 53
    · rw [if_pos htype]
      by_cases hlen : 1 ≤ x.value.length
      · rw [if_pos hlen, if_pos (show x.tag = 53 ∧ 1 ≤ x.value.length from ⟨htype, hlen⟩)]
        cases hvalue : x.value with
        | nil =>
          rw [hvalue] at hlen
          cases hlen
        | cons b value => rfl
      · have hno : ¬ (x.tag = 53 ∧ 1 ≤ x.value.length) := fun h => hlen h.2
        rw [if_neg hlen, if_neg hno]
        exact ih
    · have hno : ¬ (x.tag = 53 ∧ 1 ≤ x.value.length) := fun h => htype h.1
      rw [if_neg htype, if_neg hno]
      split_ifs
      · split <;> exact ih
      · exact ih

/-- A field that the options of one tag set. -/
theorem foldl_takeOption_address {get : DhcpOptions → Ip} {tag : UInt8} (htag : tag ≠ 53 ∧ isAddressOption tag = true)
    (hget : ∀ other ip o, isAddressOption other = true → get (DhcpOptions.set other ip o) = if other = tag then ip else get o)
    (options : List DhcpOption) (o : DhcpOptions) : get (options.foldl takeOption (0, o)).2 = lastAddress tag options (get o) := by
  induction options using List.reverseRecOn with
  | nil => rfl
  | append_singleton options x ih =>
    rw [List.foldl_append, List.foldl_cons, List.foldl_nil, lastAddress, lastValue_concat, takeOption]
    by_cases htype : x.tag = 53
    · have hno : ¬ (x.tag = tag ∧ 4 ≤ x.value.length) := fun h => htag.1 (h.1.symm.trans htype)
      rw [if_pos htype, if_neg hno]
      split_ifs <;> exact ih
    · rw [if_neg htype]
      by_cases haddr : isAddressOption x.tag = true ∧ 4 ≤ x.value.length
      · obtain ⟨ip, hip⟩ := ipAt_value haddr.2
        rw [if_pos haddr, hip]
        dsimp only
        rw [hget _ _ _ haddr.1]
        by_cases hx : x.tag = tag
        · rw [if_pos hx, if_pos ⟨hx, haddr.2⟩, Option.bind_some, hip]
          rfl
        · have hno : ¬ (x.tag = tag ∧ 4 ≤ x.value.length) := fun h => hx h.1
          rw [if_neg hx, if_neg hno]
          exact ih
      · have hno : ¬ (x.tag = tag ∧ 4 ≤ x.value.length) := fun h => haddr ⟨h.1 ▸ htag.2, h.2⟩
        rw [if_neg haddr, if_neg hno]
        exact ih

theorem set_fields (other : UInt8) (ip : Ip) (o : DhcpOptions) (h : isAddressOption other = true) :
    (DhcpOptions.set other ip o).serverIp = (if other = 54 then ip else o.serverIp) ∧
      (DhcpOptions.set other ip o).subnet = (if other = 1 then ip else o.subnet) ∧
      (DhcpOptions.set other ip o).router = (if other = 3 then ip else o.router) ∧
      (DhcpOptions.set other ip o).dns = if other = 6 then ip else o.dns := by
  have hcases : other = 54 ∨ other = 1 ∨ other = 3 ∨ other = 6 := by
    unfold isAddressOption at h
    simp only [Bool.or_eq_true, decide_eq_true_eq] at h
    tauto
  rcases hcases with rfl | rfl | rfl | rfl <;> exact ⟨rfl, rfl, rfl, rfl⟩

/-- What the parser makes of a sequence of options. -/
structure Takes (options : List DhcpOption) (o : DhcpOptions) (msgType : UInt8) (o' : DhcpOptions) : Prop where
  type : msgType = lastType options
  serverIp : o'.serverIp = lastAddress 54 options o.serverIp
  subnet : o'.subnet = lastAddress 1 options o.subnet
  router : o'.router = lastAddress 3 options o.router
  dns : o'.dns = lastAddress 6 options o.dns

theorem dhcpParseOptions_takes (harea : Area options opts) (hfuel : opts.length < fuel)
    (o : DhcpOptions) : ∃ msgType o', dhcpParseOptions fuel opts o = (.ok msgType, o') ∧ Takes options o msgType o' := by
  refine ⟨_, _, dhcpOptions_area harea (List.drop_zero) hfuel 0 o, ?_⟩
  constructor
  · exact foldl_takeOption_type options o
  · exact foldl_takeOption_address (by decide) (fun other ip o h => (set_fields other ip o h).1) options o
  · exact foldl_takeOption_address (by decide) (fun other ip o h => (set_fields other ip o h).2.1) options o
  · exact foldl_takeOption_address (by decide) (fun other ip o h => (set_fields other ip o h).2.2.1) options o
  · exact foldl_takeOption_address (by decide) (fun other ip o h => (set_fields other ip o h).2.2.2) options o

/-! ### The options of the client -/

/-- The options area of a message. -/
def optionsArea (message : Bytes) : Bytes := message.drop 240

theorem optionsArea_dhcpPkt (xid : UInt32) (mac : Mac) (options : Bytes) :
    optionsArea (dhcpPkt xid mac options) = options ++ List.replicate (312 - options.length) 0 := by
  have hfront : dhcpPkt xid mac options = ([1, 1, 6, 0] ++ be32 xid ++ be16 0 ++ be16 0x8000 ++ List.replicate 16 0 ++ mac.bytes ++
      List.replicate (10 + 64 + 128) 0 ++ DHCP_MAGIC) ++ (options ++ List.replicate (312 - options.length) 0) := by
    simp only [dhcpPkt, List.append_assoc]
  have hlength : ([1, 1, 6, 0] ++ be32 xid ++ be16 0 ++ be16 0x8000 ++ List.replicate 16 0 ++ mac.bytes ++
      List.replicate (10 + 64 + 128) 0 ++ DHCP_MAGIC).length = 240 := by
    simp only [List.length_append, List.length_replicate]
    rfl
  rw [optionsArea, hfront, ← hlength, List.drop_left]

/-- The discover message has its type and a list of parameters. -/
theorem area_discover (xid : UInt32) (mac : Mac) : Area [⟨53, [1]⟩, ⟨55, [1, 3, 6]⟩] (optionsArea (dhcpBuildDiscover xid mac)) := by
  rw [dhcpBuildDiscover, optionsArea_dhcpPkt]
  refine @Area.option 53 1 [1] _ _ (by decide) rfl ?_
  refine @Area.option 55 3 [1, 3, 6] _ _ (by decide) rfl ?_
  exact Area.stop _

theorem area_request (xid : UInt32) (mac : Mac) (serverIp offeredIp : Ip) :
    Area [⟨53, [3]⟩, ⟨50, offeredIp.bytes⟩, ⟨54, serverIp.bytes⟩, ⟨55, [1, 3, 6]⟩]
      (optionsArea (dhcpBuildRequest xid mac serverIp offeredIp)) := by
  rw [dhcpBuildRequest, optionsArea_dhcpPkt]
  refine @Area.option 53 1 [3] _ _ (by decide) rfl ?_
  refine @Area.option 50 4 offeredIp.bytes _ _ (by decide) rfl ?_
  refine @Area.option 54 4 serverIp.bytes _ _ (by decide) rfl ?_
  refine @Area.option 55 3 [1, 3, 6] _ _ (by decide) rfl ?_
  exact Area.stop _

/-- The parser takes the sequence of options that its input holds, and so finds what the client put
into its own messages. -/
theorem dhcp_options_spec {fuel : ℕ} {opts : Bytes} (hfuel : opts.length < fuel) :
    (∃ options, Area options opts ∧ (∀ options', Area options' opts → options' = options) ∧
      ∀ o, ∃ msgType o', dhcpParseOptions fuel opts o = (.ok msgType, o') ∧ Takes options o msgType o') ∧
    (∀ xid mac o, opts = optionsArea (dhcpBuildDiscover xid mac) → (dhcpParseOptions fuel opts o).1 = .ok 1) ∧
    (∀ xid mac serverIp offeredIp o, opts = optionsArea (dhcpBuildRequest xid mac serverIp offeredIp) →
      (dhcpParseOptions fuel opts o).1 = .ok 3 ∧ (dhcpParseOptions fuel opts o).2.serverIp = serverIp) := by
  refine ⟨?_, ?_, ?_⟩
  · obtain ⟨options, harea⟩ := exists_area opts
    exact ⟨options, harea, fun options' h => h.unique harea, dhcpParseOptions_takes harea hfuel⟩
  · rintro xid mac o rfl
    obtain ⟨msgType, o', hrun, htakes⟩ := dhcpParseOptions_takes (area_discover xid mac) hfuel o
    rw [hrun, htakes.type]
    rfl
  · rintro xid mac serverIp offeredIp o rfl
    obtain ⟨msgType, o', hrun, htakes⟩ := dhcpParseOptions_takes (area_request xid mac serverIp offeredIp) hfuel o
    rw [hrun, htakes.type, htakes.serverIp]
    exact ⟨rfl, rfl⟩

theorem dhcp_options_request :
    (dhcpParseOptions 313 (optionsArea (dhcpBuildRequest 1 ⟨2, 0, 0, 0, 0, 1⟩ ⟨10, 0, 0, 1⟩ ⟨10, 0, 0, 2⟩)) noOptions).2.serverIp =
      ⟨10, 0, 0, 1⟩ := by
  have hlen : (optionsArea (dhcpBuildRequest 1 ⟨2, 0, 0, 0, 0, 1⟩ ⟨10, 0, 0, 1⟩ ⟨10, 0, 0, 2⟩)).length < 313 := by
    rw [dhcpBuildRequest, optionsArea_dhcpPkt, List.length_append, List.length_replicate]
    decide
  exact ((dhcp_options_spec hlen).2.2 _ _ _ _ noOptions rfl).2

end Tg11Kernel.Net
