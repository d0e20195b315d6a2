import BytecodeMutation.Unicode.Table

namespace BytecodeMutation.Unicode

def categoryCodes : List String :=
  ["cn", "ll", "lu", "lo", "mn", "po", "mc", "so", "ps", "pe", "lm", "no", "nd", "sm", "sk", "sc",
   "cf", "pd", "nl", "pi", "pf", "lt", "zs", "pc", "me", "co", "cc", "zl", "zp", "cs"]

def categoryNames : List (List String × String) :=
  [(["cn", "unassigned"], "cn"), (["ll", "lowercaseletter"], "ll"),
    (["lu", "uppercaseletter"], "lu"), (["lo", "otherletter"], "lo"),
    (["mn", "nonspacingmark"], "mn"), (["po", "otherpunctuation"], "po"),
    (["mc", "spacingmark"], "mc"), (["so", "othersymbol"], "so"), (["ps", "openpunctuation"], "ps"),
    (["pe", "closepunctuation"], "pe"), (["lm", "modifierletter"], "lm"),
    (["no", "othernumber"], "no"), (["nd", "decimalnumber", "digit"], "nd"),
    (["sm", "mathsymbol"], "sm"), (["sk", "modifiersymbol"], "sk"),
    (["sc", "currencysymbol"], "sc"), (["cf", "format"], "cf"), (["pd", "dashpunctuation"], "pd"),
    (["nl", "letternumber"], "nl"), (["pi", "initialpunctuation"], "pi"),
    (["pf", "finalpunctuation"], "pf"), (["lt", "titlecaseletter"], "lt"),
    (["zs", "spaceseparator"], "zs"), (["pc", "connectorpunctuation"], "pc"),
    (["me", "enclosingmark"], "me"), (["co", "privateuse"], "co"),
    (["cc", "control", "cntrl"], "cc"), (["zl", "lineseparator"], "zl"),
    (["zp", "paragraphseparator"], "zp")]

def categoryGroups : List (List String × List String) :=
  [(["l", "letter"], ["lu", "ll", "lt", "lm", "lo"]), (["lc", "casedletter"], ["lu", "ll", "lt"]),
    (["m", "mark", "combiningmark"], ["mn", "mc", "me"]), (["n", "number"], ["nd", "nl", "no"]),
    (["p", "punctuation", "punct"], ["pc", "pd", "ps", "pe", "pi", "pf", "po"]),
    (["s", "symbol"], ["sm", "sc", "sk", "so"]), (["z", "separator"], ["zs", "zl", "zp"]),
    (["c", "other"], ["cc", "cf", "co", "cn"])]

def categoryText : String :=
  "BfBaawcfapcfaiajafanafarbfjmbfcnbfzcaiafajaoaxaozbaianajanBgBaawafdpahafaoahadatanaqahaoahanbl
    aoabbfaoaladauclafwcangcxbanhbacabacabacabacabacabacabacabacabacabacabacabacabacabacabacabaca
    bacabacabacabacabacabacabacabacabacabacabacabacbbacabacabacabacabacabacabacabacbbacabacabacab
    acabacabacabacabacabacabacabacabacabacabacabacabacabacabacabacabacabacabacabacabbcabacabaccbb
    cabacabbcabccbbdcabbcabcccbbcabbcabacabacabbcabacbbacabbcabccabacabbcbbadaccbddacavabacavabac
    avabacabacabacabacabacabacabacabacbbacabacabacabacabacabacabacabacabacbbacavabacabccabacabaca
    bacabacabacabacabacabacabacabacabacabacabacabacabacabacabacabacabacabacabacabacabacabacabacab
    acabacabacabacgbbcabbcbbacabdcabacabacabacabacCqbadBabrkdolknoekgoakaoakqoEheacabacabakaoacab
    baakcbafacdaboacafccaaacaabcabqcaaicBibacbbcccbacabacabacabacabacabacabacabacabacabacabacabac
    ebacabanacabbcbbBycBvbacabacabacabacabacabacabacabacabacabacabacabacabacabacabacabacabacabahe
    ebyacabacabacabacabacabacabacabacabacabacabacabacabacabacabacabacabacabacabacabacabacabacabac
    abacabacabacabacabbcabacabacabacabacabacabacbbacabacabacabacabacabacabacabacabacabacabacabaca
    bacabacabacabacabacabacabacabacabacabacabacabacabacabacabacabacabacabacabacabacabacabacabacab
    acabacabacabacabacabacabacabacabacabacabacabacabacabaaBlcbaakffBobafarbabhapaaBsearaeafbeafbe
    afaehaBaddaddbfkafqcnbfapbfbhkeafaqcfBfdakjduejmdfbdaeDudafadgeaqahfebkbeahdebdjmcdbhadnfaaaq
    adaeBddBaebaDkdkeadnajmBgdiebkahcfakbaaebpvddeakieakceakeebaofaaydcebaafaakdeaxdaofdaabqeaieB
    odakxeaqBfeagCbdaeagaeadcghedgaebgadgejdbebfjmafakodaebgaahdbabdbavdaagdaaadcaddbaaeadcgdebab
    gbabgaeadhaagdabdaacdbebajmbdbpflahapadafaebabeagaafddabdbavdaagdaabdaabdaabdbaaeaacgbedabeba
    cecaaegaddaaadgajmbecdaeafjabeagaaidaacdaavdaagdaabdaaedbaaeadcgeeaabeagaabgaebaadoabdbebajma
    fapgaadfeaaaebgaahdbabdbavdaagdaabdaaedbaaeadagaeagdebabgbabgaegabeagdabdaacdbebajmahadfljaae
    adaafdcacdaaddcabdaaadaabdcabdcacdcalddabgaebgcacgaacgaebaadfaagnajmclfhapaheaaecgaehdaacdaaw
    daapdbaaeadcedgaaceaadegabeaacdbaadbabdbebajmgaafglahadaebgafhdaacdaawdaajdaaedbaaeadagaeegaa
    aebgaabgbegabgfabdaabdbebajmaabdaglabebgidaacdaaBodbeadcgdeaacgaacgaeadahdacdagglcdbebajmilah
    fdaaaebgaardcaxdaaidaaadbagdcaaedacgceaaaeaahgfajmbabgaflaBvdaebdgedaapfdakheafjmbfBkabdaaada
    aedaaxdaaadaajdaebdieadbaedaaakaageaajmbaddBfaadchofahafchbefhjmjlahaeahaeahaeaiajaiajbghdaaB
    jddaneageeafbeedkeaaBjeaahhaefhaabhefdhbfBkaBqdbgdeagfeagbebgbeadjmfffdbgbeddceadcgbdggcddemd
    aebgbefgaeadagjmcgaebhBlcaaaceaacbaBqbafakcbMqdaaddbagdaaadaaddbaBodaaddbaBgdaaddbagdaaadaadd
    baodaaCedaaddbaCodbaceiftlcapdjhfaDhcbafbbaarXvdahafqdawzdaiajcaCwdcfcshdgardceagiasdbeagbfia
    rdbelamdaacdaabelaBzdbeaggehgaebgkecfakcfapadaebajmfajlfaffardfceaqaejmfaBidakCadgaedbeBhdaea
    deaCrdjaBedaacedgbecgdabgaefgcedaahcabfjmBddbaedkaBrddazdfajmalcaBhhwdbebgaebabfCadagaeaggeaa
    aeagaebghefgjebaaejmfajmfagfakffbaneaypeBwadeagBudaeageeagaeegaebghdaabfjmgfjhieihcfbeagBddag
    debgbeagcebdjmBrdaeagbecgaeagcebghadfBjdhghebgbecaefjmcacdjmBddfkbfibacabeaBqcbacchfhaceafmea
    ggeddaefdaebdagbeadeaBrbCkkmbakBhbBkkCleacabacabacabacabacabacabacabacabacabacabacabacabacaba
    cabacabacabacabacabacabacabacabacabacabacabacabacabacabacabacabacabacabacabacabacabacabacabac
    abacabacabacabacabacabacabacabacabacabacabacabacabacabacabacabacabacabacabacabacabacabacabaca
    bacabacabacabacabacabacabacabacabacabacabacabacabacabacabacibacabacabacabacabacabacabacabacab
    acabacabacabacabacabacabacabacabacabacabacabacabacabacabacabacabacabacabacabacabacabacabacaba
    cabacabacabacabacabacabacabacabacabacabacabacabacabacabacabacabacabacibhcfbbafcbahbhchbhcfbba
    fcbahbaaacaaacaaacaaachbhcnbbahbhvhbhvhbhvebaabbdcavaoabcocbaabbdcavcodbbabbdcaacohbeccobacba
    abbdcavboaakweqfrbfatauaibtauaiathfaBbaBceqawifataudfbxcfanaiajkfanafaxjfaweqaajqalakbaflcnai
    ajakjlcnaiajaamkcaBgpoamedyaecyleoabhacdhacbhabccbbccabahacbhanecfhacahacahacahdcahabdcabddab
    bhbbbcenacdbahanbhabahplBisacabdsalbhdaenehbndhanbhanbhanghanBehbnbhanahanBehKhnhhaiajaiajthb
    nghaiajDchanBdhynBnhfnCthvakhuaChlCzhvlHahanihanCbhhnEghanJnhaiajaiajaiajaiajaiajaiajaiajBdlB
    rhenaiajBenaiajaiajaiajaiajaiajpnJvhFanaiajaiajaiajaiajaiajaiajaiajaiajaiajaiajaiajCknaiajaia
    jBfnaiajJxnBvhunbhfnBmhbaBfhaaEahBvcBvbacabccbbacabacabacabdcabacbbacfbbkccabacabacabacabacab
    acabacabacabacabacabacabacabacabacabacabacabacabacabacabacabacabacabacabacabacabacabacabacaba
    cabacabacabacabacabacabacabacabacabacabacabacabacabacabacabacabacabacabacabacabacabacbbfhacab
    acabceacabeadfalbfBlbaaabeaabbaCddgaakafnaaewdiagdaagdaagdaagdaagdaagdaagdaagdaaBfebfatauatau
    cfatauafatauifarbfarafataubfatauaiajaiajaiajaiajefakjfbrdfarafaimfbhcfaiajaiajaiajaiajarBhazh
    aaDkhlaIfhzaphawcfahakadasaiajaiajaiajaiajaiajbhaiajaiajaiajaiajaraibjahisdebgarekbhcsakadafb
    haaDhdbabebobkadarDldafckadeaBqdaaDpdaabhdljhBfdBlhiaahpdBehaajlBdhhlaholBfhjlBmholMhhJTndClh
    BFCedakBRydcaCchiaBndfkbfKhdakcfpdjmbdtaacabacabacabacabacabacabacabacabacabacabacabacabacaba
    cabacabacabacabacabacabacabacabacabacabadaecyafjeafakacabacabacabacabacabacabacabacabacabacab
    acabacabacabacabbkbeCrdjsbeffhawoikboacabacabacabacabacabacabaccbacabacabacabacabacabacabacab
    acabacabacabacabacabacabacabacabacabacabacabacabacabacabacabacabacabacabacabacabacabacabacaba
    cabakhbacabacabbcabacabacabacabacabakboacabacabadacabaccbacabacabacabacabacabacabacabacabacab
    acabecabecabacabacabacabacabacabacabacabdcabacabbcabbaacabaaabaaabacabacabacabacuackacabadbka
    bgdaecdaeddaewdbgbeagdhaecaflbhapahfaBzddfhabgBxdpgbehabfjmfarefdcfadafbdaejmBbdhebfwdkebgkaa
    fBcdcaceagBudaebgdebgbecgmfaaakjmdabfedaeakidjmedaaBodfebgbebgbeiacdaehdaeagbajmbadfpdakfdcha
    dagaeagBxdaeadcebdbeedbeadaeadxabdakbfkdagbebgbfadbkagaejafdbafdbafdiagdaagdaaBqbaodkibakboda
    DbbBidbgaebgaebgafagaebajmfaQNrdlawddaBwddaDAtBdJMdzObdbaEbdBlagblaebeaadaejdanmdaaedaaadaabd
    aabdaaEddqopaNydajaiphCldbaCbdgaahBfaldapchpegfaiajaffapeafbrbxaiajaiajaiajaiajaiajaiajaiajai
    ajbfaiajdfcxcfaadfaraiajaiajaiajcfanarcnaaafapbfdaedaaFedbaaqaacfapcfaiajafanafarbfjmbfcnbfzc
    aiafajaoaxaozbaianajanaiajafaiajbfjdakBsdbkBedcafdbafdbafdbacdcabpanaoahbpaaahdnbhjacqbhbalda
    azdaasdaabdaaodbandBhaEsdeacfdaBslcaihCasdlqhblchaamhcaahBuaBshaeEzaBcdcaBwdoaaeBaldaBfddliat
    dashdaseaBldeeeaBddaaafBjddahdafesBpaBncBnbCzdbajmfaBjcdaBjbdaBndhaBzdkaafkcaaocaagcaabcaakba
    aobaagbaabbcaBzdlaLydiavdjahdxafkaaBpkaaikCqafdbaadaaBrdaabdcaadbawdaaafhlwdbhglBedhailBvasda
    abdeaelvdflcaafzdeaafClaCdddablbdplbaBtladceaabeeadeddaacdaaBcdbacedaaeilgaifgaBcdblafBcdclBf
    ahdahBbdbedaelgfiaCbdcagfvdbahlsdeahlrdgadflaglDbaCudCcaBycmaBybgaflBjddehajmfajmddakadvccaee
    arakvbhabnHzaBelaaBpdaabearbabdpacdCcadeBcdjladhavdkedlefvarddedfBlaudgltawdiaagaeagCadoegfda
    tljmaebdbeadiaceagBsdcgdebgbebfaqdfaejaaqbaydgajmfaceBjdeeagheaajmdfadbgadhaBidaebfadiabeagBv
    dcgiebgdddfdeafagaejmadafadcfaatlkardaaydcgcebgaeagbeffaebdaeCjagdaaadaaddaaodaajdaffaBudaecg
    heeajmfabebgaahdbabdbavdaagdaabdaaedaabeadbgaedgbabgbacgbaadfaageaedbgbagecaeekajdaaadbaadaaB
    ldaaadcgfeaaagbaagaadgaabgaeagaeadaeadbfaabfhabeBcaCadcghebgceagaeddefjmbfaaafaecdBdaBvdcgfea
    gaedgbeagbebdafadhajmGjaBudcgdebadgbeagbewfddbeBhaBvdcghebgaeagbecfadkajmfamfsaBqdaeagaebgfea
    gaeadaffajmfatmBbaBadbaaeagaebgdeageedajmblcfahgdHcaBrdcgieagbeafDvaBfcBfbjmillahdbaadbahdaab
    daaxdfgaabgbabeagaeadagadagaecfiajmCrahdbaBmdcgdebabedgaeadafadagBaaadjeBndfeagaddehfaehaadfe
    bgceBtdmeagbecfadefmaCudgajfGzaBgdafnajmfaidaaBkdaggeaafeagaeadefjajmslcabfBddbaveaaaggeagbea
    gbeCuagdaabdaaBldfecaaeaabeaageadaehajmfafdaabdaaBfdegaabeaabgaeagaeadgajmLxasdbebgbfgabeadag
    mdaaBhdbgeecabgaeagaemfjmaeDgaadoaulhhdpqhmaafBJldDxaEgsaaefkaHndDXjaDsdbfmaBPfdpqaefdoejaFXq
    deaWkdKDcaBddlecgcejmCOraVwdgaBedaajmdabfDadaajmfaBddbaeeafjaBvdgeefdhdkafahjajmaaglaaudeasdQ
    packBndbkcfjmHpaBfcBfbwldfDwaCwddaaeadCcggademkClabkafakaekabgnaJBzdhaBVpdBoajdNFqadkaagkaabk
    aaLedoaadBcacdbaadnaddhaPfdDKtaEcdeamdcaidgajdbaahbeafdqFVfaJfhjmfaQthCxaBtebaweiaElhChaJlhja
    BmhbaChhbgcechfghqhebhgeBdhdeCihuaCnhceahEratllatllaDihiaylFeazczbzcgbaarbzczbacaabcbaacbabcb
    adcaahcdbaaabaagbaakbzczbbcaadcbahcaagcaazbbcaadcaaecaaaccagcaazbzczbzczbzczbzczbzczbzcBbbbay
    canybanfbycanybanfbycanybanfbycanybanfbycanybanfbacabbaBxmTrhCcedhBxehhaenhaebhefoaeeaaoeBQla
    jbadtbfafbIeageaaqebageaabeaaeeeaCjkBgaaeEhaBsdcagegkbajmdaadahMhaBddaeqaBrddejmeaapRvaBadakd
    ejmIfaBddbeadjmdaafSlagdaaddaabdaaodaaHodbailgeBoaBhcBhbgeakdajmdabfBEeaCglahclapdlCxaBslahol
    HladdaaBadaabdaaadbaadaajdaaddaaadaaadfaaddaadaaadaaadaacdaabdaaadbaadaaadaaadaaadaaadaabdaaa
    dbaddaagdaaddaaddaaadaajdaaqdeacdaaedaaqdBzabnKjaBrhdaDvhlaohbaohaaohaaBkhjamlGehCdaBchmaBrhd
    aihgabhnafhFxaJqheoBBzhdaqhcamhcaEohdaDqhfalhdaahoalhdaCdhhajhfaBnhhaBdhbalhdabhCjaNbhlanhbam
    hcajheaCdhgaohbakhfaihgaFqhaaDnhjmBNpaCLFbdBfaGDtdfaIndbaINpdnaLBkdoaXxdDQvaUvdCFxaHHydeaGFfd
    BOMXkaaqBdaDrqExaJfeDSFnaDSYnzbaDSYnzba"

def categoryRuns : List Run := runsOf categoryText

def ofCategories (codes : List String) : CharSet :=
  let labels := codes.filterMap categoryCodes.idxOf?
  labelled categoryRuns labels.contains

def category? (name : String) : Option CharSet :=
  match name with
  | "any" => some .all
  | "ascii" => some (.range 0 127)
  | "assigned" => some (ofCategories ["cn"]).complement
  | _ => match categoryNames.find? (·.1.contains name) with
      | some (_, code) => some (ofCategories [code])
      | none => (categoryGroups.find? (·.1.contains name)).map fun (_, codes) => ofCategories codes

end BytecodeMutation.Unicode
