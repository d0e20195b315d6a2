import BytecodeMutation.Unicode.Table

namespace BytecodeMutation.Unicode

def scriptNames : List (List String) :=
  [["zzzz", "unknown"], ["zyyy", "common"], ["arab", "arabic"], ["latn", "latin"],
   ["grek", "greek"], ["ethi", "ethiopic"], ["zinh", "inherited", "qaai"], ["hani", "han"],
   ["taml", "tamil"], ["guru", "gurmukhi"], ["gran", "grantha"], ["beng", "bengali"],
   ["gujr", "gujarati"], ["orya", "oriya"], ["hang", "hangul"], ["kana", "katakana"],
   ["telu", "telugu"], ["knda", "kannada"], ["sinh", "sinhala"], ["laoo", "lao"],
   ["tutg", "tulutigalari"], ["cyrl", "cyrillic"], ["geor", "georgian"], ["hebr", "hebrew"],
   ["vith", "vithkuqi"], ["khar", "kharoshthi"], ["diak", "divesakuru"], ["mlym", "malayalam"],
   ["tibt", "tibetan"], ["linb", "linearb"], ["gonm", "masaramgondi"], ["mong", "mongolian"],
   ["glag", "glagolitic"], ["hira", "hiragana"], ["cprt", "cypriot"], ["gong", "gunjalagondi"],
   ["deva", "devanagari"], ["limb", "limbu"], ["lana", "taitham"], ["mult", "multani"],
   ["hmng", "pahawhhmong"], ["dupl", "duployan"], ["armn", "armenian"], ["syrc", "syriac"],
   ["mymr", "myanmar"], ["khmr", "khmer"], ["talu", "newtailue"], ["cham"], ["bhks", "bhaiksuki"],
   ["xsux", "cuneiform"], ["tang", "tangut"], ["hmnp", "nyiakengpuachuehmong"],
   ["bopo", "bopomofo"], ["copt", "coptic", "qaac"], ["cher", "cherokee"],
   ["cans", "canadianaboriginal"], ["tagb", "tagbanwa"], ["lepc", "lepcha"], ["tfng", "tifinagh"],
   ["java", "javanese"], ["mtei", "meeteimayek"], ["lina", "lineara"], ["hatr", "hatran"],
   ["merc", "meroiticcursive"], ["phlp", "psalterpahlavi"], ["hung", "oldhungarian"],
   ["gara", "garay"], ["yezi", "yezidi"], ["brah", "brahmi"], ["ahom"], ["nand", "nandinagari"],
   ["marc", "marchen"], ["kawi"], ["mroo", "mro"], ["plrd", "miao"], ["kits", "khitansmallscript"],
   ["sgnw", "signwriting"], ["adlm", "adlam"], ["nkoo", "nko"], ["samr", "samaritan"],
   ["mand", "mandaic"], ["thai"], ["runr", "runic"], ["tglg", "tagalog"], ["tale", "taile"],
   ["bugi", "buginese"], ["bali", "balinese"], ["sund", "sundanese"], ["batk", "batak"],
   ["yiii", "yi"], ["lisu"], ["bamu", "bamum"], ["saur", "saurashtra"], ["kali", "kayahli"],
   ["rjng", "rejang"], ["tavt", "taiviet"], ["ital", "olditalic"], ["ugar", "ugaritic"],
   ["xpeo", "oldpersian"], ["osma", "osmanya"], ["osge", "osage"], ["aghb", "caucasianalbanian"],
   ["armi", "imperialaramaic"], ["nbat", "nabataean"], ["phnx", "phoenician"], ["lydi", "lydian"],
   ["mani", "manichaean"], ["avst", "avestan"], ["prti", "inscriptionalparthian"],
   ["phli", "inscriptionalpahlavi"], ["rohg", "hanifirohingya"], ["kthi", "kaithi"],
   ["sora", "sorasompeng"], ["cakm", "chakma"], ["khoj", "khojki"], ["sind", "khudawadi"], ["newa"],
   ["tirh", "tirhuta"], ["sidd", "siddham"], ["modi"], ["takr", "takri"], ["wara", "warangciti"],
   ["sunu", "sunuwar"], ["egyp", "egyptianhieroglyphs"], ["tnsa", "tangsa"], ["bass", "bassavah"],
   ["nshu", "nushu"], ["wcho", "wancho"], ["onao", "olonal"], ["mend", "mendekikakui"],
   ["thaa", "thaana"], ["ogam", "ogham"], ["hano", "hanunoo"], ["buhd", "buhid"],
   ["olck", "olchiki"], ["brai", "braille"], ["vaii", "vai"], ["sylo", "sylotinagri"],
   ["phag", "phagspa"], ["lyci", "lycian"], ["cari", "carian"], ["goth", "gothic"],
   ["perm", "oldpermic"], ["dsrt", "deseret"], ["shaw", "shavian"], ["elba", "elbasan"],
   ["todr", "todhri"], ["palm", "palmyrene"], ["mero", "meroitichieroglyphs"],
   ["sarb", "oldsoutharabian"], ["narb", "oldnortharabian"], ["orkh", "oldturkic"],
   ["sogo", "oldsogdian"], ["sogd", "sogdian"], ["ougr", "olduyghur"], ["chrs", "chorasmian"],
   ["elym", "elymaic"], ["mahj", "mahajani"], ["shrd", "sharada"], ["dogr", "dogra"],
   ["zanb", "zanabazarsquare"], ["soyo", "soyombo"], ["pauc", "paucinhau"], ["maka", "makasar"],
   ["cpmn", "cyprominoan"], ["hluw", "anatolianhieroglyphs"], ["gukh", "gurungkhema"],
   ["krai", "kiratrai"], ["medf", "medefaidrin"], ["toto"], ["nagm", "nagmundari"]]

def scriptText : String :=
  "CmbzdfbzdBubadobadebwdabBedabRgdBmbedebbCatbEhgdeabcebadeabaedaaeabaeabceaaaeaateaaCkenCbpeFcv
    bgGmvaaBlBqbaBxBqbacBqaaCcxhaBaxdafxkaecabfcabncabccabBfcabjckgzcagEdcabBhcnBraaChBrbacBrBvcB
    xFanaCgDabacDaBtDbbaoDbaaBbDcbaaDcaakBreaBecaabceaCwcabBccDcBkdgoBkbbzBkdlaahlbablbavlaaglaaa
    lcadlbailbablbadlhaaldablaaelbaylbacjaafjdabjbavjaagjaabjaabjaabjbaajaaejdabjbacjcaajgadjaaaj
    gaqjjacmaaimaacmaavmaagmaabmaaembajmaacmaacmbaamoadmbalmgagmaacnaahnbabnbavnaagnaabnaaenbainb
    abnbacngacndabnaaenbarnjabiaaficaciaadicabiaaaiaabicabicacicalidaeicaciaadibaaifaainauieamqaa
    cqaawqaapqbaiqaacqaadqgabqaacqbaaqbadqbajqgaiqmraacraawraajraaerbairaacraadrgabrfabraadrbajra
    acrlamBbaacBbaaByBbaacBbaafBbdapBbbazBbaacsaarscaxsaaisaaasbagscaasdafsaaasaahsfajsbacslaCfDd
    daabBbDdBkabtaaataaetaaxtaaataawtbaetaaataagtaajtbadtBfaCtBcaaBjBcdaBmBcaaBjBcaaoBcaagBcdbbBc
    BkaGdBsBlwaaaweaawbaBqwabdwJvoCufaadfbagfaaafaadfbaBofaadfbaBgfaadfbagfaaafaadfbaofaaCefaadfb
    aCofbaBffcazffaDhCcbafCcbaYpCdBcFbcaCwDecbkDegavDfiaaDfuFcbbiatFdlamCeaacCeaabCelaDpBtbajBtfa
    jBtfabBfbbaBfabtBffaDkBfgaBqBfeaCrCdjaBeBlaalBldalBldaaBlcalBlBdDgbaeDgkaBrBudazBufakBucabBuB
    fBtBbDhbabDhCkBmaaBcBmbakBmfajBmfanBmbaBegBwaCyDiaaBxDiClDjBzDkhadDkCdCfcaoCfcacCfBvFekveaBqw
    bacwhDjhacgabmgabggdbagfbagcbbgabeaBldeeavBwdeeddeemdavCrdaeClgJvdvebafebaBlebafebaheaaaeaaae
    aaaeaaBeebaCaeaaoeaanebafeaasebaceaaieaalbbgDibaakbadbakbadobaamdcaBgboaBggoaBlbaecbbdfbadBab
    adqbBodcbdaZpbvakbuaBJrbJvFfYdbbaBfbaaEabDrBgBfdElCbeagCbBlwaaaweaawbaCdCggabCgnaaCgwfiagfaag
    faagfaagfaagfaagfaagfaagfaaBfvDpbBhazhaaDkhlaIfhzaubahabahybihdgbohbdhdbaaDhBhbabgbbcBhabDlpb
    bcpeaBqCaaaDpoaapbBfCaBlbiaabppBeoaaClbBeoDcbBupabDjpGlbJTnhClbBFBjhBSuDlcaCcDliaBvDmLnFgtaDr
    vDjDnhaBhbDxdcbCodbabdaaadaahduandBsFhcajbfaCdFihaCrDohalDofaBfBkBtDpabaDpBjDqkaaDqBcocaCzCha
    aabjChdabChBeBsaaCcBvianBvbajBvbadBvBfBsCoDrxaeDrwCijaffbaffbaffiagfaagfaaBqdabidaeddbbdaDbCc
    BtCibajCifaQNrolawodaBwoMNbaObhbaEbhBlagdlaeBqeazxaaexaaaxaabxaabxaajxEkcpaNycbbDbcbaCbcgaacB
    fapcpgjbfangbvBibaasbaadbdaecaaFecbaabaaBfbzdfbzdkbjpabBspbbBeocafobafobafobacocagbaagbjaebba
    lBdaazBdaasBdaabBdaaoBdbanBdBhaEsBdeacbdaBsbcaibDaeaambcaaeBuaBsbagEzaBcFjcaBwFkoaagBabdaBjDs
    iacDsBaFleaBqFmeaBdDtaaaDtBjDudanDuBpaDbFnBvFoBdDvbajDvfaBjDwdaBjDwdaBnFphaBzDxkaaDxkyaaoyaag
    yaabyaakyaaoyaagyaabycaBzFqlaLyCjiavCjjahCjxafdaaBpdaaidCqafBibaaBiaaBrBiaabBicaaBibaaBivDyaa
    iDyBfFrBeDzhaiDzBvasCkaabCkeaeCkBbEacaaEazEbeaaEbClaBfFsxCldatClbaBtCldzaabzeahzaaczaaBczbacz
    dajzgaizgaBfFtBfFuBfaBmEcdalEciaCbEdcagEdvEebahEesEfeahEfrCmgadCmlagCmDbaCuFvCcaByCnmaByCngaf
    CnBnEghajEgfaBlCocaBcCohabCoHzaBecaaBpCpaacCpbabCppaccCcadcBnFwhaBpFxvazFyBlaBbFztawGaiaCzCqd
    aBjCqiaaCqCoEhjaaEhbayEigajEifaCaEjaarEjhaBmGbiaDrGcaatskarEkaaBuEkCjagBnaaaBnaadBnaaoBnaakBn
    faCgEleajElfadkaahkbabkbavkaagkaabkaaekaaagikbabkbackbaakfaakeagkbagkcaekkajuaaaubaauaaBluaaj
    uaaaubaauaaduaajuaabuhabuBcaDnEmaaeEmBdaCtEnhajEnGjaCbEobaBlEoBhaCqEpkajEpfamBfsaCfEqfajEqfat
    BsBbaBaCrbaoCrdawCrHcaChGdDvaDeErlaaErgBabaaBabahBaaabBaaaBdBaaabBabalBaiajBaCrahCsbaBtCsbakC
    sBaaCtGehaDeGfmapCdCeGggajBkGzaBhEsnajEsfaiBwaaBsBwaanBwjaBcBwcaBfCtbavCtaanCtCuagBeaabBeaaBr
    BecaaBeaabBeaaiBehajBefafBjaabBjaaBkBjaabBjaafBjgajBjLxayGhgaqCuaaBoCucaBcCuDgaaDmoaBximaaiBJ
    lBxDxaEgBxaaeBxkaHnBxDXjaDuGimaBQrEtjaFXqEteaWkGjKDcaCfGkCOraVwDngaBeCvaajCvdabCvDaEuaajEufaB
    dEvbafEvjaCrBojajBoaagBoaauBoeasBoQpaCfGlHpaDmGmDwaCwCwdaCeCwgaqCwClaaByaEwbhaCxkabhnaJBzByha
    BDnBySbCxBoaaCxiByNFqadpaagpaabpaaapLaBhcpoaaBhBcacBhbaapnadphaPfEwDKtaEcBpeamBpcaiBpgajBpbad
    BpdbFVfaJpbfaQtbCxaBtgbawgiaElbChaJlbjaBmbbaCjbcgqbhgbbggBdbdgCibuaCreEratblatblaDibiaybFeaDg
    baaCsbaabbbaabbabbbadbaalbaaabaagbaaCmbaadbbahbaagbaaBbbaadbaaebaaabcagbaaNbbbaLfbbaBxbZbCyoa
    eCyaaoCyBQlaBedfafdIeagBgaaqBgbagBgaabBgaaeBgeaCjvBgaavEhaBsBzcanBzbajBzdabBzMhaBeGnqaCfExeaa
    ExRvaBpGoIfaBqEydaaEySlagfaadfaabfaaofaaHoEzbapEzBoaCxCzdajCzdabCzBEeaCpbCxaCibHladcaaBacaabc
    aaacbaacaajcaadcaaacaaacfaacdaacaaacaaacaaccaabcaaacbaacaaacaaacaaacaaacaabcaaacbadcaagcaadca
    adcaaacaajcaaqceaccaaecaaqcBzabcKjaBrbdaDvblaobbaobaaobaaBkbjaGrbCdazbaBhbbmaBrbdaibgabbnafbF
    xaBLvbdaqbcambcaEobdaDqbfalbdaaboalbdaCdbhajbfaBnbhaBdbbalbdabbCjaNbblanbbambcajbeaCdbgaobbak
    bfaibgaFqbaaDxbBNpaCLFbhBfaGDthfaInhbaINphnaLBkhoaXxhDQvaUvhCFxaHHyheaGFfhBOMXkaabBdaDrbExaJf
    gLECta"

def extensionText : String :=
  "HbaqdehwBgBjBpCbEbEdFkFlFmFoFpGbTwahdlvBkDdDmGnkacdCabccdCabacdDmjacdDdbacdCaBmaidevCbCcDgEsFm
    aaidevCcDgDwEsFqaaedvCcCgaafdBgBrDdEsaaldevBrCbCcCgDwDxFlFqaagdpBgCbFlFpaafdevCgFmaajdxBpBrCb
    CgDgFmFqaaldevxBpBqBrCgDgFlFmaacdCgaaddBpBraaedvCcDwaaddCcDgaacdEsaacdfbacdEsaaddvFqbaedeFmFq
    pagdpBpBrCcCgaaedBpBrCcaacdBrhaddBrEsaacdBrbaddBrCcaahdBrCcDdDxEsFlqabecabesacdDwfaddDxFqembd
    ebceCbKjacvFmaacvBgabcdvaacvBgJxadwBgBqFaahcBrCoCpDaEgFaoahcBrCoCpDaEgFaaadcBrFacaicBrCoCpCzD
    aEgFaBgajcBrCmCzDcEcEgFxFykkccBrkjdcCpFagaccBrDvaccEgYmapdijklmnqrBbBkCsEmEnGcaandijklmnqrBbB
    kEmEnravijklmnqrsBbBeBjBkCsElEnEqEyFhGbGdaaxijklmnqrsBbBeBjBkBlCsElEnEqEyFhGbGdGkajeBkEhGbGdE
    ojdlEjFhEojcjBnEojcmEkJmncikJijdruCsBGqjdBsDgEjGvaddwBgCGlcbDeCtbeCeDfFcFdHvbcBfFibacBfFiBVea
    eklrBkaabBkaaeklrBkaadkrBkaabBkaaflqBkEmEnaadlqBkaadBkEmGcaaelqBkEmaacBkGcaaginqrBbBkaabBkabc
    BkGcabbBkaacBkGcaaclBkaadBkEmEnafbBkaadBkCsEmaadlBkGcaacBkEmaabBkaaelBkEmGcadbBkaalklnqrsuBbB
    kCsEnaackBkaaekruBkabclBkaablabckBkaabCsHpbbeCcaddvBrbabBrVsaddBfFiBfaccCzkagwBgCnFjFkFvcaeeC
    nFkFsFqaddkBkEZmacdCbyacEdFvaahwCnDbEbEdEhFkkabBpeadcCnCzbacvBgQmpchBybahhopBfBhCaDlaaihopBfB
    hCaDlFiaafhopBhCacabhbbihopBcBfBhCaDlabjhopBcBfBhCaDlDmafghopBhCaDlbafhopBhCaahghopBhCaDladfh
    opBhCakdchCacafhopBhCaaecpBhbafhopBhCaebdhpBhabbhDldcpBhdacpBhDmaghopBhCaDlaacpBhFrpbhBgBlbhj
    achByBwBnbhCeBwbhplbhBzabhDkybhkebhDsBebhBRIuacvBgFohcdhLkcqjmruBbBkCsEhEkElEnEpEqGbGcGdacpjm
    ruBkCsEhEkElEnEpEqGbGcGdabljmBkEhEkElEnEpEqGbGdaamjmBkEhEkElEnEpEqGbGcGdaaljmBkEhEkElEnEpEqGb
    GdHbadluBkbaciBkCgaddBsDpGeacChDhBFPmbccDaGwaccFakaccFaCtbfhopBhCaKweghopBhCaDlkacpBhBtbcpBhN
    obdBdBiGiaacBdBieBsdBdBiCjdicBdBiQaBbccCbDAkacEcFyDBiacikbacikCdbcikETvbcikbacikCHJwdbBpIPwrb
    hLRybbh"

def scriptRuns : List Run := runsOf scriptText

def extensionsFrom (next : Nat) : Nat → List Nat → List (Nat × Nat × List Nat)
  | fuel + 1, gap :: extent :: count :: ns =>
      let low := next + gap
      (low, low + extent, ns.take count)
        :: extensionsFrom (low + extent + 1) fuel (ns.drop count)
  | _, _ => []

def extensions : List (Nat × Nat × List Nat) :=
  let ns := numbers extensionText
  extensionsFrom 0 ns.length ns

def scriptLabel? (name : String) : Option Nat :=
  (scriptNames.findIdx? (·.contains name)).filter (0 < ·)

def script? (name : String) : Option CharSet :=
  (scriptLabel? name).map fun label => labelled scriptRuns (· == label)

def scriptExtension? (name : String) : Option CharSet :=
  (scriptLabel? name).map fun label =>
    let listed := extensions.map fun (low, high, _) => (low, high)
    let added := (extensions.filter (·.2.2.contains label)).map fun (low, high, _) => (low, high)
    ((labelled scriptRuns (· == label)).difference (.ofRanges listed)).union (.ofRanges added)

end BytecodeMutation.Unicode
