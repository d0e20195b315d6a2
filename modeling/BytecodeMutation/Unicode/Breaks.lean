import BytecodeMutation.Unicode.Table

namespace BytecodeMutation.Unicode

structure Breaks where
  values : List (List String)
  text : String
  deriving DecidableEq, Repr

def Breaks.value? (b : Breaks) (name : String) : Option CharSet :=
  (b.values.findIdx? (·.contains name)).map fun label => labelled (runsOf b.text) (· == label)

def graphemeBreaks : Breaks where
  values :=
    [[], ["lv"], ["lvt"], ["ex", "extend"], ["sm", "spacingmark"], ["cn", "control"],
     ["pp", "prepend"], ["v"], ["l"], ["t"], ["lf"], ["cr"], ["zwj"], ["ri", "regionalindicator"]]
  text :=
    "jfakbfalrfDqaBgfmaafWvaEhdKoagdKcaBsdaaadaabdaabdaaadCdafgjakdaaafBtaudpaadDwagdagaafdbabdaa
      ddBgaagaaadBdaBadDmakdCfaidiaadxaddaaidaacdaaedBqacdBzabgeaidBpaxdagBfdaeCbaadaeadaacehddea
      dbeaagdjabdBcaadbeCdaadaaadbeddbabebabeadiaadjabdzaadbabdaeCdaadaacebddabdbacdcaadBdabdcaad
      kabdaeCdaadaaceedaabdaeaabeadtabdvafdaaadbeCdaadaabdaeddbabebabeadgacdjabdBdaadCgaadaeadbec
      aceaaceadiaadBnaadceadCcaadaacddeaacdaaddgabdkabdBcaadbeCdaadaaaebdaeadbeaacdaaddgabdkabdoa
      aelabdbeCcabdaaadbeddaaceaaceadaghaadjabdBcaadbeCraaddaadbecdaaadaageadrabeCiaadaaaegdlahdD
      taadaaaeidkagdCuabdBaaadaaadaaaddabeBwandaeedaabdeakdaaBjdiaadDxaddaefdaabdbebdwabebddacdpa
      ddmaadaaaebdfaadoaadDtaDriCthDjjNkacdBKjaddBbacdBcabdBdabdClabdaegdheadbekdiaadBsacdafadEma
      bdBhaadEnacddebdcedabeadfecdIkabdbeadCeaaeadaegdaaadaaadbahdfejdbaadBvaBedBwaddaeBuajddecdB
      laidlabdaeBdaaeddbefdCdaadaebdceadaeedBvahehdbebdFvacdaamdaegddaadfaadbaaebdHpaCldUcaafadam
      bfxagfBwapfDraBgdEObacdFkaadDraBfdVhafdEaabdBSQdaddaajdBfabdDbabdKlaadcaaddaadwabebdaedaadD
      eabeBxapebdzardmaadBlahdyakdaeadlaBcicacdaeBuaadbeddbebdbeadBjaadCoafdbebdbebdlaadhaadaeBta
      adByaadaacdbabdeabdaaadBoaaebdbeeaaeadJbabeadbeadbeaaaeadraabBacabBacabBacabBacabBacabBacab
      BacabBacabBacabBacabBacabBacabBacabBacabBacabBacabBacabBacabBacabBacabBacabBacabBacabBacabB
      acabBacabBacabBacabBacabBacabBacabBacabBacabBacabBacabBacabBacabBacabBacabBacabBacabBacabBa
      cabBacabBacabBacabBacabBacabBacabBacabBacabBacabBacabBacabBacabBacabBacabBacabBacabBacabBac
      abBacabBacabBacabBacabBacabBacabBacabBacabBacabBacabBacabBacabBacabBacabBacabBacabBacabBaca
      bBacabBacabBacabBacabBacabBacabBacabBacabBacabBacabBacabBacabBacabBacabBacabBacabBacabBacab
      BacabBacabBacabBacabBacabBacabBacabBacabBacabBacabBacabBacabBacabBacabBacabBacabBacabBacabB
      acabBacabBacabBacabBacabBacabBacabBacabBacabBacabBacabBacabBacabBacabBacabBacabBacabBacabBa
      cabBacabBacabBacabBacabBacabBacabBacabBacabBacabBacabBacabBacabBacabBacabBacabBacabBacabBac
      abBacabBacabBacabBacabBacabBacabBacabBacabBacabBacabBacabBacabBacabBacabBacabBacabBacabBaca
      bBacabBacabBacabBacabBacabBacabBacabBacabBacabBacabBacabBacabBacabBacabBacabBacabBacabBacab
      BacabBacabBacabBacabBacabBacabBacabBacabBacabBacabBacabBacabBacabBacabBacabBacabBacabBacabB
      acabBacabBacabBacabBacabBacabBacabBacabBacabBacabBacabBacabBacabBacabBacabBacabBacabBacabBa
      cabBacabBacabBacabBacabBacabBacabBacabBacabBacabBacabBacabBacabBacabBacabBacabBacabBacabBac
      abBacabBacabBacabBacabBacabBacabBacabBacabBacabBacabBacabBacabBacabBacabBacabBacabBacabBaca
      bBacabBacabBacabBacabBacabBacabBacabBacabBacabBacabBacabBacabBacabBacabBacabBacabBacabBacab
      BacabBacabBacabBacabBacabBacabBacabBacabBacabBacabBacabBacabBacabBacabBacabBacabBacabBacabB
      acabBacabBacabBacabBacabBacabBacabBacabBacabBacabBacabBacabBacabBacabBacabBacabBacabBacabBa
      cabBacabBacabBacabBacabBacabBacabBacabBacabBacabBacabBacabBacabBacabBacabBacabBacabBacabBac
      abBacabBacabBacabBacabBacabBacabBacabBacabBacabBacabBacabBacabBacabBacabBacabBacabBacabBaca
      bBacabBacabBacabBacabBacabBacabBacabBacabBacabBacabBacabBacabBacabBacabBacabBacabBacabBacab
      BacabBacabBacabBacabBacabBacabBacabBacabBacabBacabBacabBacabBacabBacabBacabBacabBacabBacabB
      acabBacabBacabBacabBacabBacabBacabBacabBacabBacabBaclawhdaBwjNHxaadBCiapdpapdHyaafGbabdDbal
      fTsaadIraadFsaedCMfacdaabdeaddBnacddaadGiabdWaaddCmaedMeabdDaaddCrakdBwaddEraaeadaeCaaodBoa
      adbabdjacdaeBsaceddbebdbaagdaadjaagBxacdBjaedaehdpabeBraadlabdaeBvaceidaeadaabgeaddaaaeadDn
      acecdbeddfaadbaadGaaadcehduabdbeCcabdaaadaeaddebabebabeadiaadjabebagdcaedCoaadbefdaaadbaada
      acdaeaabecdagadnabdDdacehdbecdaeadwaadDcaadbefdaeadbeadaebdaebdJaaadbeddbadebdaebdBaabdDdac
      ehdbeadaebdEbaadaeadbehdDwaadaaadbaddaeedJvaceidaebdJkaadeeaabebaddagaeagaeadFkaceddbabddea
      dcaaeBbajdBnafdaeagddhaadiafdbecdBnafgmdaebdPoaaegdaafdaeadDdavdaaaegdaebdaebdErafdcaadaabd
      aagdagadCnaeeaabdaabeadaeadNiabdbeiabdagaeBvabeedcabecdwaadHXcapfadfaodQYxaldcecdDRzaedCgag
      dVjaahcadhSpaadaaCcegaddDcaadkabdBDAwabdaadfGYtaBtdbawdUvaedcafdhfhdbagdBdaddFracdCYcaCcdda
      BxdhaadnaadvaedaaodCAhagdaaqdbagdaabdaaedDvaadGdagdOkaadCiaddTnaddJtabdBChagdEeagdDGsaznTma
      edBSXXnaBffDrdExfJfdFIlfKYUha"

def wordBreaks : Breaks where
  values :=
    [[], ["le", "aletter"], ["extend"], ["nu", "numeric"], ["fo", "format"], ["ka", "katakana"],
     ["mn", "midnum"], ["hl", "hebrewletter"], ["ml", "midletter"], ["ex", "extendnumlet"],
     ["wsegspace"], ["mb", "midnumlet"], ["nl", "newline"], ["lf"], ["cr"], ["dq", "doublequote"],
     ["sq", "singlequote"], ["zwj"], ["ri", "regionalindicator"]]
  text :=
    "jaanbmaoraakaaapdaaqdaagaaalaajdaiageazbdaajaazbjaamBjaabbaaegaabaaaibaabeawbaaBebaaSlbfaBhb
      EhcebaabbbadbagabfaabaicbaaabaatbaaDebaaFibaagcGjbaaBlbbadbaaabaiBobagabfaBscaaacaabcaabcaa
      achaBahdadhabaikafefabgbakcaaaecaBqbucjdaaadagaabbacDubaaabgcaeaafcbbbcaadcbbjdcbbaaboaaeab
      acBdbBacbaDkbkcabnajdBgbicbbbaagaaabbaacbavbdcabicabccabecraybccdakbeaxbaafbaabeeaicBpbxcae
      BgcCbbccabrcabgcjbbcbajdaapbccaahbbabbbavbaagbaaabcadbbaacabgcbabcbaccabhaacdabbaacbbcbajdb
      bjaabaaacbaccaafbdabbbavbaagbaabbaabbaabbbaacaaecdabcbacccaacgadbaaabgajdbccbackaccaaibaacb
      aavbaagbaabbaaebbaacabhcaaccaaccbaaboabbbcbajdiaabfcaaccaahbbabbbavbaagbaabbaaebbaacabgcbab
      cbaccgaccdabbaacbbcbajdaaabpaacabaafbcacbaadbcabbaaabaabbcabbcacbcalbdaeccaccaadcbaabfaacna
      jdpaechbaacbaawbaapbbaacabgcaaccaadcgabcaacbbaabbabbbcbajdpaabccaahbaacbaawbaajbaaebbaacabg
      caaccaadcgabcfabbaabbbcbajdaabbacladcibaacbaaBobbcabgcaaccaadcabeacbacgacbbcbajdjafbaaccaar
      bcaxbaaibaaabbagbcaacdafcaaacaahcfajdbabcCiaacbagclahcaajdDiaacbaickagcaajdBlaabwabcfajdkaa
      caaacaaacdabchbaaBjbdatcaabcebkcaaBjciaacDvatcaajdladcdaccaaccbagccadcmalcaaacjddcbaBlbaaab
      eaabbaBqbaaMubaadbbagbaaabaadbbaBobaadbbaBgbaadbbagbaaabaadbbaobaaCebaadbbaCobbaccBfapbpaDh
      bbafbcaXvbbaqbakzbeaCwbcakbgarbdciasbcckarbbclambaacbaabcClaBfciaacbajdBgaccaeacjdfaDkbgaeb
      bcBhbacabeaCrbjaBebaalcdalcjajdExajdBlawbecCeajcaaBccbaacjdfajdvaBecBwaecBubqchbcajdqaiclac
      cBdbmcbbjdBrbnclaBjbtchajdcacbjdBjbbakbeaBqbbacbpaccaaucdbacfbacbbccabeaHjbClcKrbbafbbaBlbb
      afbbahbaaabaaabaaabaaBebbaCabaagbaaabcacbaagbcadbbafbdambeacbaagbcagkaackaaacarbehabljaalba
      aibmeeajoabjcaagoaajjaakeeaajeaaabmaabpambByaBgcqaabdaabbajbaaabcaebfaabaaabaaabaadbaakbbad
      beaebdaabqaBobBFgaBzbCRtaIubfadbccbblaBlbaaabeaabbaCdbgaaboaacwbiagbaagbaagbaagbaagbaagbaag
      baagbaaBfcBuaabRvaakdaabBjafcaaefeabbDnabcbfcaDmfaadfeaBqbaaDpbqaBfbBvapfHzaBufaaDjfBPDvaBS
      ubCoaBtbbaKibcapbjdbbtaBubdcaajcaaBebbcDbbbcvaHpbbabbaaabaahbuapbaccbacdbacwbecdaacsaBzblab
      cBxbrcjajdfarcfbcaabaabbacjdBbbhcbawbmclaBcbcadcBubncnaabjdkaacjajdfaBobnciacbachbbcbajdBga
      ccBxaacaaccbabceabcaaacBdakbecbacbbcjafbbafbbafbiagbaagbaaCfbfaEkbhcaabcbajdfaQNrblawbdaBwb
      NGtagblaebeaahacjhaamhaaehaaahaabhaabhaajhDtbBgaNybraClbbaCbbBnalbdapcagbaaiagkapccabjxacja
      gaaalaaagaizaebaaFebbaaegaaldaagaaalaajdaiageazbdaajaazbkaCdfbcBebcafbbafbbafbbacbBbacedalb
      aazbaasbaabbaaobbanbBhaEsbCqaCabFfaacEzaBcbcaBwboaacBeaBfbmaBdbeaBlbeceaBdbbaBjbdahbaaebBpa
      GbbbajdfaBjbdaBjbdaBnbhaBzblakbaaobaagbaabbaakbaaobaagbaabbcaBzblaLybiavbjahbxafbaaBpbaaibC
      qafbbaabaaBrbaabbcaabbawbjawbiaBebCmasbaabbjavbjazbCraCdbfabbClaabccaabceadcdbaacbaaBcbbacc
      daacBfaBcbcaBcbBiahbaaBbbbcyaCbbjavbjasbmarbEfaCubCcaBybmaBybmaBjbdchajdfajdBbbcaecaawbJpaB
      pbaabccabbpacbCcadcBcbjaabhavbkcBearbdcBpaubBaawbiaccCabocBeajdacbbbcabiadcBsbkcbaaedaacjaa
      ebaybgajdfaccBjbncaajddaabbcabhaBibacbaabiaccBvbncdbdadcaabcjdabaaabBiarbaayblcfaacbbacCjag
      baaabaadbaaobaajbgaBublceajdfadcaahbbabbbavbaagbaabbaaebaabcabgcbabcbaccbaabfaaceaebbcbagcc
      aeckajbaaabbaabaaBlbaaabicaaacbaacaadcaaecabacabmabcBcaCabrcdbeajddaaccbBdaBvbtcbbaaabhajdG
      jaBubgcbaicwadbbcBhaBvbqccaabkajdBlaBqbmcabgajdfatdCeaocdajdHpaBrbocDwaClbjduahbbaabbahbaab
      baaxbfcaabcbadcabacabbclajdCrahbbaBmbgcbagcabaaabacBaaabjcBnbgcabdchaachaabkcBtbpccaabraCub
      HqaBgboajdfaibaaBkbhcaahcaboajdxaBdbbavcaancCuagbaabbaaBlbfccaacaabcaagcabachajdfafbaabbaaB
      fbecaabcaaecabgajdLxasbdciabcabacmbaaBhbgccaecmajdacDgaabDaaBJlbDxaEgbqaHnbDXjaDsboaBPfbpea
      cfbocjaFXqbeaWkbKDcaBdbrcjdCOraVwbgaBebaajdfaDabaajdfaBdbbaeckaBvbgciadblajdiaubeasbQpaBsbc
      ajdHpaClbExaCwbdaacabCccgadcmbClabbaaabackabcYGbadfaagfaabfaaafLaacfBxaafnadfEAhaEcbeambcai
      bgajbcabcaadeGElajdTxaBtcbawcUvaeccafchehcbagcBdadcFraccRaaDgbaaCsbaabbbaabbabbbadbaalbaaab
      aagbaaCmbaadbbahbaagbaaBbbaadbaaebaaabcagbaaNbbbaybaaybaaBebaaybaaBebaaybaaBebaaybaaBebaayb
      aahbbaBxdTraCccdaBxchaacnaacvaecaaocBQlaBebfafbIeagcaaqcbagcaabcaaeceaCjbBgaacEhaBsbcagcgbb
      ajddaabMiaBdbacqaBrbdcjdSbaBbbdcjdIfaBdbbcabjdSqagbaadbaabbaaobaaHobkagcBoaCpbgcabdajdBTtad
      baaBabaabbaaabbaabaajbaadbaaabaaabfaabdaabaaabaaabaacbaabbaaabbaabaaabaaabaaabaaabaabbaaabb
      adbaagbaadbaadbaaabaajbaaqbeacbaaebaaqbYdazbfazbfazbDnazsTmaecDAdajdBSUXaaaeBdaDrcExaJfcLEC
      ta"

def sentenceBreaks : Breaks where
  values :=
    [[], ["lo", "lower"], ["up", "upper"], ["le", "oletter"], ["ex", "extend"], ["st", "sterm"],
     ["nu", "numeric"], ["cl", "close"], ["fo", "format"], ["sc", "scontinue"], ["sp"],
     ["at", "aterm"], ["se", "sep"], ["lf"], ["cr"]]
  text :=
    "iaakanbkaoraakafahdachbabjalaajgajdaafaazcahaaahcazbahaaahgaamzaakiaabahaaaigaabdaabahdawcaa
      gcxbaahbacabacabacabacabacabacabacabacabacabacabacabacabacabacabacabacabacabacabacabacabaca
      bacabacabacabacabacabacabacbbacabacabacabacabacabacabacabacbbacabacabacabacabacabacabacabac
      abacabacabacabacabacabacabacabacabacabacabacabacabacabacabacabbcabacabaccbbcabacabbcabccbbd
      cabbcabcccbbcabbcabacabacabbcabacbbacabbcabccabacabbcbbadaccbddbcabbcabbcabacabacabacabacab
      acabacabacabacbbacabacabacabacabacabacabacabacabacbbbcabacabccabacabacabacabacabacabacabaca
      bacabacabacabacabacabacabacabacabacabacabacabacabacabacabacabacabacabacabacabacabacabacgbbc
      abbcbbacabdcabacabacabacabacCqbadBjbgdbbdaldnaebgaadaaadqaEheacabacabadaaacabbadbaaacfaacaa
      ccaaacaabcabqcaaicBibacbbcccbacabacabacabacabacabacabacabacabacabacabacabacebacabaaacabbcbb
      BycBvbacabacabacabacabacabacabacabacabacabacabacabacabacabacabacabacabacabaageacabacabacaba
      cabacabacabacabacabacabacabacabacabacabacabacabacabacabacabacabacabacabacabacabacabacabacab
      acabbcabacabacabacabacabacabacbbacabacabacabacabacabacabacabacabacabacabacabacabacabacabaca
      bacabacabacabacabacabacabacabacabacabacabacabacabacabacabacabacabacabacabacabacabacabacabac
      abacabacabacabacabacabacabacabacabacabacabaaBlcbaadcaajbaBobafgaBseaaaeaabeaabeaaaehaBaddae
      dlafifabjbakeaaaicfBqduejgaabgaabdaeDudafadgeaiaafebdbeaadebdjgcdbaadcflaaiadaeBddBaebaDkdk
      eadnajgBgdiebdbaajafadbaaebavddeadieadceadeeiaafaaafcabfaaydcedakdeaxdaafdaabieaieBpdxeaiBg
      eCbdceadreadgejdbebfjgaapdceaahdbabdbavdaagdaaadcaddbaaeadgebabebaceadhaaedabdaacdbebajgbdj
      aadaaaebaceaafddabdbavdaagdaabdaabdaabdbaaeaaeedabebacecaaegaddaaadgajgbecdaekaceaaidaacdaa
      vdaagdaabdaaedbaaeadheaaceaacebaadoabdbebajgiaadfeaaceaahdbabdbavdaagdaabdaaedbaaeadgebabeb
      acegacedabdaacdbebajgaaadpaaeadaafdcacdaaddcabdaaadaabdcabdcacdcalddaeecaceaadebaadfaaenajg
      paeehdaacdaawdaapdbaaeadgeaaceaadegabeaacdbaadbabdbebajgpaadceaahdaacdaawdaajdaaedbaaeadgea
      aceaadegabefabdaabdbebajgaabdaeladeidaacdaaBodbeadgeaaceaadeadeacdaegacdbebajgjafdaaceaardc
      axdaaidaaadbagdcaaedafeaaaeaahefajgbabemaBvdaebdgeeagdheaajgBmabdaaadaaedaaxdaaadaajdaebdie
      adbaedaaadaageaajgbaddBfaadwabefajgkaaeaaaeaaaedhbehdaaBjddateaabeedkeaaBjeiaaeCeaBqdteadjg
      bfdafddeddceadcebdgecddemdleadaejgdebaBlcaaaceaacbaBqdaaabMtdaaddbagdaaadaaddbaBodaaddbaBgd
      aaddbagdaaadaaddbaodaaCedaaddbaCodbacebaafdabfwapdpaDhcbafbcaXvdaaafqdakzdbhcaCwdcakdgardde
      iasdcebfiardbelamdaacdaabelaBzdBfecaaddaadaebajgxaajafdaajafaaceaiaejgfaDkdgaedbeBhdaeadeaC
      rdjaBedaaledalehabfjgBddbaedkaBrddazdfajgBlawdeedaCadjeaaBcebaaejgfajgmaaddfdaBeeBwaeeBudqe
      hdaabfjgbfbabfkaieiacfceBddmebdjgBrdnelaBjdtecabfcajgcacdjgBjdbfibacabeaBqdbacdpaceaaueddae
      fdaebdceadeaHjbCleacabacabacabacabacabacabacabacabacabacabacabacabacabacabacabacabacabacaba
      cabacabacabacabacabacabacabacabacabacabacabacabacabacabacabacabacabacabacabacabacabacabacab
      acabacabacabacabacabacabacabacabacabacabacabacabacabacabacabacabacabacabacabacabacabacabaca
      bacabacabacabacabacabacabacabacabacabacabacibacabacabacabacabacabacabacabacabacabacabacabac
      abacabacabacabacabacabacabacabacabacabacabacabacabacabacabacabacabacabacabacabacabacabacaba
      cabacabacabacabacabacabacabacabacabacabacabacabacabacabacibhcfbbafcbahbhchbhcfbbafcbahbaaac
      aaacaaacaaachbhcnbbahbhchbhchbhcebaabbecaaabcacbaabbeccadbbabbdcdahbeceacbaabbeccakkaibebic
      abjcahhdaalcabmeiakiabhaabfgabhcfuaakeiaajiaaabkabhabmabhaambByaBgeqaacdaacbaabccbbccabaaac
      caecfaacaaacaaacaadcaaabdcabddabbabbbceaacdbdaabqapcpbcdacabddOsadhBcabhPeazczbYaafhganhDaa
      bhBeajhPmavhCkadhBfabhTtaBvcBvbacabccbbacabacabacabdcabacbbachbccabacabacabacabacabacabacab
      acabacabacabacabacabacabacabacabacabacabacabacabacabacabacabacabacabacabacabacabacabacabaca
      bacabacabacabacabacabacabacabacabacabacabacabacabacabacabacabacabacabacabacabacbbfaacabacab
      ceacablaBlbaaabeaabbaCddgaadoaaewdiagdaagdaagdaagdaagdaagdaagdaagdaaBfenhnabhbajhdaafadlaaf
      eaahpabfhhQcaakajafbacdjhbahhaachaaidfeaaedbaeddaDhdbabebacdaaDldaaddeaBqdaaDpdqaBfdBvapdTr
      aJTndClaBGUedCoaBtdaaafKidaabfpdjgbdtaacabacabacabacabacabacabacabacabacabacabacabacabacaba
      cabacabacabacabacabacabacabacabacabacabaddeaajeaaadacabacabacabacabacabacabacabacabacabacab
      acabacabacabaccbbeDbdbeaaafcaafBeaidbaacabacabacabacabacabacabaccbacabacabacabacabacabacaba
      cabacabacabacabacabacabacabacabacabacabacabacabacabacabacabacabacabacabacabacabacabacabacab
      acabacjbacabacabbcabacabacabacabacabadbaacabacabadacabaccbacabacabacabacabacabacabacabacaba
      cabacabecabecabacabacabacabacabacabacabacabdcabacabbcabbaacabaaabaaabacabacabacabacuacbacab
      adcbgdaecdaeddaewdeedaaesaBzdbabfhabeBxdrehabfjgfarefdcaadaabdaejgBbdheaaafwdmelaBcdcadeBud
      negabfeaadjgfaedaejdjgedaaBodneiacdaehdbebajgcacfwdcaadceBxdaeadcebdbeedbeadaeadxacdbakdeeb
      fcdbejafdbafdbafdiagdaagdaaBqbaanbfaDbbBidheafbebajgfaQNrdlawddaBwdMNbaObdbaEbdBlagblaebeaa
      daejdaamdaaedaaadaabdaabdaaEddBgaNydbhpaCldbaCbdBnalddapebjaaajcabhgapeaabjbaphbabhgabjalba
      ajbfajfhdaajlaedaaFedbaaiaaaffabhbabjalaajgajdaafaazcahaaahcazbahaaahaabhafbhajaaCddbeBedca
      fdbafdbafdbacdBbacidaldaazdaasdaabdaaodbandBhaEsdCqaCadFfaaeEzaBcdcaBwdoaaeBeaBfdmaBddeaBld
      eeeaBddbaBjddahdaaedBpaBncBnbCzdbajgfaBjcdaBjbdaBndhaBzdlakcaaocaagcaabcaakbaaobaagbaabbcaB
      zdlaLydiavdjahdxaabbdcbaaBpbaaibCqafdbaadaaBrdaabdcaadbawdjawdiaBedCmasdaabdjavdjazdCraCddf
      abdClaadceaabeeadeddaacdaaBcdbacedaaevabfhaBcdcaBcdBiahdaaBbdbeyaCbdjavdjasdmardEfaCudCcaBy
      cmaBybmaBjddehajgfajgfdvccaeeaaadvbJpaBpdaabecabdpacdCcadeBcdjaadhavdkedaefvarddedfBlaudBaa
      wdiaceCadoebfBcajgaebdbeadiadeBsdkebaaidfaejaaibaydgajgfaceBjdneaajgaacfadbeadhaBidaebaadia
      ceBvdneddbfbadeafbejgadaaadaabfBfardaaydlebfaabfaaaebdaeCjagdaaadaaddaaodaajdaffaBudleeajgf
      adeaahdbabdbavdaagdaabdaaedaabeadgebabebacebaadfaaeeaedbebagecaeekajdaaadbaadaaBldaaadieaaa
      ebaaeaadeaaeeadaeadbfkabeBcaCadreddbfcajgdaaecdBdaBvdtebdaaadhajgGjaBudgebaieaabfeaofddbeBh
      aBvdqebfaaadkajgBlaBqdmeadgajgfatgBbaBadbaoedajgbacfaagdHcaBrdoeDwaBfcBfbjguahdbaadbahdaabd
      aaxdfeaabebadeadaeadbeafaaafiajgCrahdbaBmdgebageadaaadaeBaaadjeBndgeaddecabfcaaehaadkeBtdpe
      aabfadraCudHqaBgdoajgfaidaaBkdheaaheadbfmajgxaBddbaveaaneCuagdaabdaaBldfecaaeaabeaageadaeha
      jgfafdaabdaaBfdeeaabeaaeeadgajgLxasddebfgabeadaemdaaBhdgecaeebfkajgaeDgaadDaaBJldDxaEgdqaHn
      dDXjaDsdoaBPfdpiaefdoejaFXqdeaWkdKDcaBddrejgCOraVwdgaBedaajgdabfDadaajgfaBddbaeeafjaBvdgebf
      gaddafkajgiaudeasdQpaBsdaabfjgHpaBfcBfbxaafDyaCwddaaeadCcegademdClabdaaadaekabenaJBzdhaBVpd
      BoajdNFqaddaagdaabdaaLedoaadBcacdbaadnaddhaPfdDKtaEcdeamdcaidgajdcabeafdiGElajgTxaBtebaweUv
      aeecafehihebageBdadeFraceRaazczbzcgbaarbzczbacaabcbaacbabcbadcaahcdbaaabaagbaakbzczbbcaadcb
      ahcaagcaazbbcaadcaaecaaaccagcaazbzczbzczbzczbzczbzczbzcBbbbaycaaybaafbycaaybaafbycaaybaafby
      caaybaafbycaaybaafbacabbaBxgTraCcedaBxehaaenaaecaafraeeaaoeBQlajbadtbfafbIeageaaqebageaabea
      aeeeaCjbBgaaeEhaBsdcagegdbajgdaadMiaBddaeqaBrddejgSbaBbddejgIfaBddbeadjgSqagdaaddaabdaaodaa
      HodkageBoaBhcBhbgeaddajgBTtaddaaBadaabdaaadbaadaajdaaddaaadaaadfaaddaadaaadaaadaacdaabdaaad
      baadaaadaaadaaadaaadaabdaaadbaddaagdaaddaaddaaadaajdaaqdeacdaaedaaqdYdazcfazcfazcBWlachCBua
      jgBNpaCLFbdBfaGDtdfaIndbaINpdnaLBkdoaXxdDQvaUvdCFxaHHydeaGFfdBOMXkaaiBdaDreExaJfeLECta"

end BytecodeMutation.Unicode
