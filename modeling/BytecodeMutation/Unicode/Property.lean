import BytecodeMutation.Unicode.Category

namespace BytecodeMutation.Unicode

def properties : List (List String × String) :=
  [(["ahex", "asciihexdigit"], "BwjhfBaf"),
    (["alpha", "alphabetic"],
      "CnzgzBvakaeafwbBebRpeloehabaDiaBdrbbcdbagabcbabtbDebFiiGjbBlcagBoBnnbabbbbbaiBaedBdkfCdbgo
        DxbheheckccaqBvnDwyBgjbeafxcstyhkfxbfiaiBpkldggCxbpbceonsbhcbcvbgbadddhcbcbbaiaebbembkaec
        bfebcvbgbbbbbbeeebcbeahdbarflcbibcbvbgbbbedibcbbdapdvdecbhcbcvbgbbbedhcbcbjbebbenaqbbfdcb
        ddbbabbdbdcdleedcbcdagaBombcbwbpdhbcbcibbccacdBcdbhbcbwbjbedhbcbcibgbbdncmmbcbBochbcbcbaf
        dhewfbcbrdxbibacgifbabhsbnCffggaBzbbabebxbabsbccebagaodBgaClhbBjesepbBjCpCcbaceqClkdcBlba
        facBqbMubdcgbabdcBobdcBgbdcgbabdcobCebdcCoBlpqDhcfdXvcqbzfCwdkhtlumtmmbcbbmBzcsoaeaCpDkhB
        qfCrkBebleixBdcelBrezCcBbeCkctByaxblcBxBzbobhBzBpcdkBrbkoCcwckBjckfBqccBpdbfbbdafHjtBhlKr
        cfcBlcfchbabababBecCabgbadcbgddcfemfcbgEmanaqmDxaeacjbadegabababdbkcdfeearBoBFhBzCRuIugdd
        bmBlbafacCdhaqwjgbgbgbgbgbgbgbgbBfBvaSbcziheceeDhgcbDlbdfBqbDprBfBwpTsJTnCmBGUeCpBtcKidpk
        buBufhdEiBnicDycCocbbabhvtbBgyBzmCpbaBsfdabckBgfBinBcdByblpaqpkebCcjnswdCqbabayccpcdlfcfc
        fjgbgbBqbngEsvQNrmweBwMNcObcEbBmgmeflbmbebabbbbbEdBhNysClcCbBolEmebFeBkzgzlDkdfcfcfccBjlb
        zbsbbbocnBiEsCrCaKhBcdBwBvBfnBdfBqfBdcBjehbeBqGbsBjeBjeBniBzmkbobgbbbkbobgbbdBzmLyjvkhyfb
        BpbiCrfcabBrbbdacwkwjBeCnsbbkvkzCsCdgbCmdbbfhbcbBcBqBcdBcBjhbBbBbCbkvksnrEgCuCdBynBynBnBi
        BbdafwJqBpbbdbqcCdadBckaivBqrBuuBbwjCrBrekCejanyxByrdiBidajClbdjbkabaBjrbBhcagdCkgbabdbob
        jhCexdbhcbcvbgbbbedhcbcbdagafgBcjbacabBlbjbacabdbbdabaBsCnbcbducBeCncbbaHcCbcgzfBiCkbadaC
        hCbcaCtBacnvgHdCeDzClBfhcachbbbBdbbcbcdDphcBtcfbabbBbBycjrCtfasCuHrBgBfibBsbgbaBxBdcvbnCv
        gbbbBrdabbbcbacbyfbbbBkbbbdbaMpwjqbBodcEhaDbBJlDyEgrHnDXkDspBPfrfzFXqfWkKDdBuCPdVwhBerDar
        BdsBvqdBfufsQqBsIdClEyCweCehqCmbbamboJBziBVpBpjNFrdbgbbbLepaBdccaodiPfDKuEcfmdihjeaIWfDgb
        CsbbcacbcdblbabgbCmbdchbgbBbbdbebadgbNbcybybBebybBebybBebybBebybhCSyBegfIfgbqcgbbbefCjBha
        EiBskgqaMjBdsBrSqBbIuBdcaTbgbdbbbobHoChCpdadaBUidbBabbbacabjbdbabagaeabababcbbbacabababab
        abbbacdbgbdbdbabjbqfcbebqYezgzgzFMkCLFbBgGDtgIncINpoLBkpXxDQwUvCFyHHyfGFf"),
    (["bidic", "bidicontrol"], "CIeaJVlbBaeCdd"),
    (["bidim", "bidimirrored"],
      "BobsabaBcabaBdabaBtapaFMsdCUnbDQqbkbCcbobGvaHkddfdadbddbdbabaeifabrfdjbbabhbBfcdfajbcsfbje
        cbexcpidubhbBPtnCwacdbbbcfdfcdnPnvcfbniahfdaeebbceeabccbkfcbmsbdcabacabdfbgcyblbedbbcbeBq
        chbBnfabadefceadebaJwaTvddbbbobcjBrhQljchDACrffbGgbsabaBcabaBdababbbbDDPnaCfaCfaCfaCfa"),
    (["ci", "caseignorable"],
      "BnagalaBjabaCtaeabaeacbTjHjebeajbbaJrgHzafaBxBsbabbbbbaBsalfkkbaBjakuqaDxhbjbdBhabaBeBaDnk
        CgkeacayxBrcBsahbfiBpCfCdabaeheadgkbnapaCgaediaubBaacbCfaebebccdaBebdalbCfaeebbeaubwfbaCg
        acabdiahblbBeaCjamaByadaCdabcfcbdhblbBdaCgacagafbubBcbCfbediaubBdaCuahcbaDmacgliDuacijabg
        CvbBbababaCdnbebbfkbBjjaDydbfbbcbzbecqdnacbgapaDqaXkcBKkcBdbBebBebCmbbgiackdafaBteBzaCnbB
        iaEocebjagcIlbcaCgabgbabachgjcaBnaiBeBxdBwabebafaBoimbBgdcbbcCeabbdabcCghcbCmfDecbmbgeaga
        dbByCknaBiDwRdabclcncncnbmeibkacaceBxebjbanaqmBzBgEJrbEjcEvapaDsBfBvaSbaBkddefaDpfDpcBQBu
        aBWcfKkaDudbjbaBcdDcboBhDaaxcDzcdbiadaeazbfaFvbBarnaBmhzkBucBwacdcbravbCofcbcbmaiaBjalaBz
        abccbfbbaBbaobfbbaDwejcEracaeaBDZsaFrqWbpdampBiacaGnahagalaBjabaBvaBtbCpavcTtaIsaFteBNpfb
        BpbiWkcbbfdBoceaGjbWbdBmaBaebaMdbDbdCskBxdEtaCcoBpacbkcBxdcbcaeakaBycBkebhCkambCaikdcaDrc
        cabbgacaGbadhvbCfbdaBlgdeCsfnababaobDhhccbaxaDgfbaebbbJedgbbbBbbDhhcabbEcabacfbaDxabacdbe
        JzibbJwbbaeaFodcbeaBgjBofcdiajfccBumbbPqgbfbaDevcgbbbbEsfdabbbgbaCubdabaNjblbCaefabaxaHXd
        qgoQYyldcDSaeChgjdTocBobSoaClqCmbbbYGpdbgbbEUgbbdGYuBtcwUycjpcgBedFscCYdCceBxiaoaweboCAig
        bqcgbbbefCjBhaGenOeaCjdTneJubBCigEfhEBfeBSXXpaBeDrEyJf"),
    (["cased"],
      "CnzgzBvakaeafwbBebHmbdeHzbBjhbBeeDsaBqdcbcdbagabcbabtbDebFiiGjbBljBoEFfBlbafacBqbdZwDhcfDF
        ukfBqccCmHjCmKrcfcBlcfchbabababBecCabgbadcbgddcfemfcbgEmanaqmDxaeacjbadegabababdbfeacdfee
        arBfdbBFlBzCRuIugddbmBlbafaBTWcBtsBdFcDxddbCjcbbabhvebcBFpBqbngDbBEAigmeBNtzgzBTtDbDsBjeB
        jEmkbobgbbbkbobgbbRjaccbBpbiBUzBynByDpvkvEFiClBGIqClBMLkDgbCsbbcacbcdblbabgbCmbdchbgbBbbd
        bebadgbNbcybybBebybBebybBebybBebybhCSyjbtgfKbCjDGkCpDAazgzgz"),
    (["cwcf", "changeswhencasefolded"],
      "CnzDmakwbhBgabababababababababababababababababababababababababababacababababababababbbabab
        ababababababababababababababababababababbbabababbbabbbccdbbbcdbbbbababbbacabbbcbabbdahbbb
        bbbabababababababacababababababababacbbabcbababababababababababababababababababababababab
        abababababahbbbcabdbabababaJmaBqabadaiagabcbabbbqbiwamcdbbababababababababababababbcbbabb
        cByBwababababababababababababababababajababababababababababababababababababababababababab
        ababbbabababababacabababababababababababababababababababababababababababababababababababa
        babababababababababababacBlBwaEFgBlbafaBFefDFujgBqccMiabababababababababababababababababa
        babababababababababababababababababababababababababababababababababababababababababababab
        ababababababababababababafbcababababababababababababababababababababababababababababababa
        babababababababababababababababababajhifkhihiflabababaihqBvcccffccfldmefccfLladbgaBtptaBF
        mzCSuBvBwabccabababdbacaicbababababababababababababababababababababababababababababababab
        abababababababababababababababababaiabaeaBTYjabababababababababababababababababababababab
        atabababababababababababababaFfababababababadabababababababababababababababababababababab
        ababababababababakababbbabababaeabacabadababababababababababebebabababababababdbabbdafaba
        babayaBIgDbBEAigmeBNtzBUzBnFgBjGakbobgbbCQcByGbvEGoBfBGJwBfBULkBh"),
    (["cwcm", "changeswhencasemapped"],
      "CnzgzCgakwbBebClbDfbBbcncbbaeDobrgBabbbabbdbbdbecabbcahacabbdffakbGkaBqdcbdcbagabcbabtbBud
        BgbebFciGjbBlkBmEFgBlbafacBqccZwDhcfDFukfBqccHdadaqaEjFzcabEncfcBlcfchbabababBecCabgbadcb
        gddcfemfcbgLladbgaBbarBfdbBFlBzCRuEibbbbhDxhddbmBlbafaBTWcBtsBbFencCjjodccebybBdcbegybBHc
        aBcDbBEAigmeBNtzgzBTtDbDsBjeBjEmkbobgbbbkbobgbbCOpBynByDpvkvEFiClBGIqClBUKeCp"),
    (["cwl", "changeswhenlowercased"],
      "CnzDxwbgBhabababababababababababababababababababababababababababacabababababababacabababab
        abababababababababababababababababababbbabadbbabbbccdbbbcdbbbbababbbacabbbcbabbdahbbbbbba
        bababababababacababababababababacbbabcbababababababababababababababababababababababababab
        abababahbbbcabdbabababaLdabadaiagabcbabbbqbiBjaiabababababababababababafacabbcByBwabababa
        bababababababababababababajabababababababababababababababababababababababababababbbababab
        ababacabababababababababababababababababababababababababababababababababababababababababa
        babababababacBlEHdBlbafaBBuDhDGlagBqccMiababababababababababababababababababababababababa
        babababababababababababababababababababababababababababababababababababababababababababab
        abababababajababababababababababababababababababababababababababababababababababababababa
        babababababababababajhifkhihiflabababaihyhihihieleldmeleLladbgaBtptaBFmzCSuBvBwabccababab
        dbacaicbababababababababababababababababababababababababababababababababababababababababa
        babababababababaiabaeaBTYjababababababababababababababababababababababatababababababababa
        bababababaFfababababababadababababababababababababababababababababababababababababababaka
        babbbabababaeabacabadababababababababababebebabababababababdbabbdafabababayaBHAhzBUzBnFgB
        jGakbobgbbCQcByGbvEGoBfBGJwBfBULkBh"),
    (["cwkcf", "changeswhennfkccasefolded"],
      "CnzCrahabacabacdccbcbwbhBgabababababababababababababababababababababababababcbacabababcbab
        ababbbababababababababababababababababababababababbbabababbbabbbccdbbbcdbbbbababbbacabbbc
        babbdahjbababababababacababababababababacdbcbabababababababababababababababababababababab
        ababababababahbbbcabdbabababaDtiBffceDnbbcjaBgabababadadbegbabbbqbiwamhbababababababababa
        babababcbbbabbcByBwababababababababababababababababajabababababababababababababababababab
        abababababababababbbabababababacababababababababababababababababababababababababababababa
        bababababababababababababababababababacBlBwaFsaDkdBChhEubbaDfacaBiccaJtbBBxaExaBobBuaCcaj
        aeaeaeamajabeharajaeaeaeamaIwBlbafaBuaDubZnfBKobDheBRsjgBqccEecbkbrbBbnaBiBkCmabababababa
        babababababababababababababababababababababababababababababababababababababababababababab
        ababababababababababababababababababababababababafbcababababababababababababababababababa
        babababababababababababababababababababababababababababababajhifkhihiflabababaihbabababab
        ababacBvcccncidaedbcdaehccchbpbafamcdfdbbbeabaicnahscBabmlaDjdbcbkbbceccbabababdbkbfeegBv
        dafaGgbbbJobLxFiBYnaDzcDxaLfBvBwabccabababdbacagebabababababababababababababababababababa
        bababababababababababababababababababababababababababababaiabaeaEuaLraDfamIfBqaCbabcDsbca
        DraBxDpdnDsBebBniBubOtBRGyababababababababababababababababababababababatababababababababa
        babababababbFcababababababadababababababababababababababababababababababababababababababa
        baiababbbabababaeabacabadababababababababababebebabababababababdbabbdafabababavdcbBHidjag
        DbBDGqKjcabacjbabacbdCpcEbBmgmefabxbebabbbbbEdBhNysClcCbBomdzwuclbsbdecbabFecabHhdfcfcfcc
        dgbgbiBNrBnFgBjGakbobgbbSxebBpbiBUzByGbvEGoBfBGJwBfBDQmdGDmBjBRggohCmfWdDgbCsbbcacbcdblba
        bgbCmbdchbgbBbbdbebadgbNbcLfcBxDCqCjDGkBhBVydbBabbbacabjbdbabagaeabababcbbbacabababababbb
        acdbgbdbdbabjbqfcbebqWikfBebBfBacBjaEhcnBreihbDQsjDRLmUvBPCQsGBn"),
    (["cwt", "changeswhentitlecased"],
      "DtzCgaBpxbhbabababababababababababababababababababababababababababacabababababababbbababab
        abababababababababababababababababababacababccabacadafacadccacababacaeacadabacadabaeabbbb
        bababababababababbbababababababababcbabadabababababababababababababababababababadabababab
        ababababaiacbbaeababababfbbbabbdbbdbecabbcahacabbdffakbGkaBrabadadcsaBbBibbdcbabababababa
        babababababebacacaCaBvbababababababababababababababababajabababababababababababababababab
        ababababababababababacababababababbbababababababababababababababababababababababababababa
        bababababababababababababababababababababaBxBmFMefDFuibaJeadaqaEkabababababababababababab
        ababababababababababababababababababababababababababababababababababababababababababababa
        babababababababababababababababababgfabababababababababababababababababababababababababab
        abababababababababababababababababababababiifkhihifkhihinchihihiebbgadcbbidcbihkcbbNeaBhp
        eaBGlzCTqBvbadbbababagacakabababababababababababababababababababababababababababababababa
        babababababababababababababababababaiabaeamBlbafaBTWdabababababababababababababababababab
        ababababatabababababababababababababaFfababababababadabababababababababababababababababab
        ababababababababababababakabacababababaeaeabbcabababababababababalabababababababaeabacada
        fababaBaaBHcaBcDbBEAigmeBOzzBVhBnFgBjFzkbobgbbCRbByEvvEGoBfBGJwBfBULmBh"),
    (["cwu", "changeswhenuppercased"],
      "DtzCgaBpxbhbabababababababababababababababababababababababababababacabababababababbbababab
        abababababababababababababababababababacababccabacadafacadccacababacaeacadabacadabafbbbbb
        babababababababbbababababababababbbbbadabababababababababababababababababababadababababab
        abababaiacbbaeababababfbbbabbdbbdbecabbcahacabbdffakbGkaBrabadadcsaBbBibbdcbababababababa
        bababababebacacaCaBvbababababababababababababababababajababababababababababababababababab
        abababababababababacababababababbbabababababababababababababababababababababababababababa
        babababababababababababababababababababaBxBmEHcBqccBDgfDFuibaJeadaqaEkabababababababababa
        babababababababababababababababababababababababababababababababababababababababababababab
        ababababababababababababababababababababgfabababababababababababababababababababababababa
        babababababababababababababababababababababababiifkhihifkhihincCabbeabadcbbeaddcbihkcbbea
        MzaBhpeaBGlzCTqBvbadbbababagacakababababababababababababababababababababababababababababa
        bababababababababababababababababababababaiabaeamBlbafaBTWdababababababababababababababab
        abababababababatabababababababababababababaFfababababababadababababababababababababababab
        abababababababababababababababakabacababababaeaeabbcabababababababababalabababababababaea
        bacadafababaBaaBHcaBcDbBEAigmeBOzzBVhBnFgBjFzkbobgbbCRbByEvvEGoBfBGJwBfBULmBh"),
    (["dash"], "BtaCAuaBzaFKjaBNpaDBdfCjaBnapaPaaEOiacaBfbeaBcaReataEhaCZWabBlakaGnaFLoaMga"),
    (["di", "defaultignorablecodepoint"],
      "GraZxaBBoaEGwbCKhbDheDApeBaeBxpGKyaCZMppJfaGeaDbiCTLndHWxhBTKZlGBn"),
    (["dep", "deprecated"], "MraBYvaDKtabaDCjbDIjfBAvbBZRYka"),
    (["dia", "diacritic"],
      "DqabaCtagaeacbTjGcbhffrbeajbJteIbaCdBsbabbbbbaFbhebFebebdcCpBaDnkCgkBibEwhBpjqBbCjaqaddBca
        CwaqaEgaqaEgaqaBvcCiaqahaEpaEgaqaEgaqaEfbqaEuaEhamfbaEdaneCxbBbababaebCocbbCkaEiabbBobeez
        gbakbBBdcBKmbBeaFskjaNjcLgauhcaBwockEaapaBmiCcbCgalbCobCmfDeyeagaccByCkBwBjflBlkRdabclcnc
        ncnbEXkcMfaTmfEbdDraBSMkambbaBcbDeboBhDycEfbmaBlaFvaBbrCfdBkaDramaBkaFtcCndBzaDwejcEybBDZ
        saBDppKkabaBvaBtbCpaBDkaBTnfbBpbiYnceaGjbVzfBmaBaePjcCskBxdHkaBpaCubEqbCkaCyajcEabGwbDcbq
        aygdeDlcbbnbDradaEtbJrbEwaEobElaKjbJybeaGaaDfasaDdaQfaJyabbDdaQjbxaHYaoQZpaDSaeChgVsbVaqD
        cbYGcdbgbbLThBtcwUycdfihcgBedFMwCjHmgOlaCjdBDmbBCigEfcbc"),
    (["emoji"],
      "BjagafjEhaeaLYramaIiawaDmfpbOdbmaGkazkecHraIxbkajaCgdbejacacbcaeacabbcadadbicfabafllbcabbb
        asacbsfbabbdbfacbeblbfbcafbbabbubffbdcaeacacfbacababagadagakbpacaeabaecbalbBwcjaoaoaOibRv
        ctbBzaeaBVuamaXdabaGMRqaHuaGebmboacjCxzbbxauacivbGsBhcEhcbbccDeccbKcbCklfbxhbchmacdcaebnb
        caibjafcmciccabaeagadagDhBwCrfhccejdabbdacjItleaKxBubjbHcEimdjfCdhockgi"),
    (["ecomp", "emojicomponent"], "BjagafjMBjaIfaDFTraDOIwzTneCEadBSVUqDr"),
    (["emod", "emojimodifier"], "HHIxe"),
    (["ebase", "emojimodifierbase"],
      "OLhaIlaqdGSJvaCiccaccEnbckvsdaecbchabayaHtbeavaebGscdeDfaqcjalaWdacaihgajjccCeaCjbbbbarcbm
        IvcBqi"),
    (["epres", "emojipresentation"],
      "NHqbHxddacaUbbvbBylBratanaibrbfbiafavahbbaeacahaebBcaBjabaecbaCjcyaoaBHbbBzaeaGPLeaHuaHiac
        jCxzbayauacebcvbGsBgmibCrbvmBqeemqdadCsbabHecCkndbxsaBabnaDiDgBwCrgadcccedlbhiItleaKxBubj
        bHcEimdjfCdhockgi"),
    (["extpict", "extendedpictographic"],
      "GnaeaLYramaIiawaDmfpbOdbmaDraCsazkecHraIxbkajaCgdbfblbEjkEnckbabagadagakbpacaeabaecbaleBtc
        jaoaoaOibRvctbBzaeaBVuamaXdabaGMRmJvncBfaCifmboacjsCeBbokauacibdjQrfMfiKfBwExEmlDhBqmdCeh
        kfBohBeDdmBubjbQyJwBNh"),
    (["ext", "extender"],
      "HbaUqbBHuaQzaYgaFhaDlaBCyaExaDNfaCeaXnaPiaCqaHKjaBreDzbDpcBQBuaCGsaBLaawaFhaEeavbBFZvaDBkb
        CFbaBbaeaBVbaLhaEmbTecBVjaBEOfbBTkbbaBQYabBUfaBGuc"),
    (["grbase", "graphemebase"],
      "BgDqBhmbWvEihcfegbabtbIphGjbBlcBxccBuabacacajBaefrjlabBtvpbDwiagbcaeBfcabBdBdDklaoBqjgdxea
        jadahobyfabkfBerBpCfCcbabdidbchjcBcbbbhcbcvbgbadddabbgbcbbanbbcexfabfebcvbgbbbbbbecydbahj
        ccbamabibcbvbgbbbeddiabbdapbelhaibbhcbcvbgbbbedacagbcbpbbcerlabfdcbddbbabbdbdcdlfabbdcbcd
        avugcbhbcbwbpdaddtccacbejhjbkbcbwbjbedbcabbybbbejbcokbcbBocabbfcbcbbecbjezcbbrdxbibacgjbg
        ghjccmBvbblhimBlbbabebxbabjbbjacebajjcdBgxcBabababnbBjsafaceBxhbfbmBlBseagacbcycddpembbcf
        bobBnbafacOmbdcgbabdcBobdcBgbdcgbabdcobCebdcCofBcdzgDhcfcZsdDkhrnsdbjrombcpBzcahhbblidjgj
        gkfjgDkhecBhbafCrkBeedccebbfhadBpcelBrezgkdCecbdCdbajabbifnjgjgnDiBvkddhbBcjlcBfebgCdbacc
        banBvibfodCjfBqcklanahdbfbccafHjCmKrcfcBlcfchbabababBecCabobncfbsccbibkfxhBwqbcBabmdBgClF
        jeZpwkvCRrcBfbNfdbfBsbafacCdhbpwjgbgbgbgbgbgbgbgBhDpBizbDkmIfBaCfgpbDheDwfBqbDpbDhjBvbBRI
        qdCcjNjuBueakBfcDbcfiHxcbbabhvpbcbdbyceejgCdiCpklymbBliylamBdgBvbbebcbbmbkegbybBogbcblcbh
        bacjcBfbBybadbcecabayqchlfcfcfjgbgbCheEmbbbddjgQNrmweBwMNcObcEbBmgmefabxbebabbbbbEuqRccCb
        haBgpqjwBibsbdeebFeeGacBedfcfcfccdgbgnbclbzbsbbbocnBiEsfceBsdDjbmdaBvBsFbBcdBwqBaeBjjBdfB
        lkBdbBkenBqGbcjgBjeBjeBniBzllbobgbbbkbobgbbdBzmLyjvkhyfbBpbiCrfcabBrbbdacwbCtiiBwsbbfBgdB
        afaCmCdetcBupdbcbBckihihClBgBkgljCbdBccBafzhdmgDcCuCdBynByhBpmjgBlixibIaBebBpdacbqcChBniv
        liwredBmBbuwjabCbpgeBdbbcamBwebcbbdoyhjjBjfajriBibclBzjabhebbpbtlrbBbdbefbbClgbabdbobkgBu
        bcnjibbhcbcvbgbbbedababdcbcbdamgBcjbacabBlbabbpabbdabcbbBnCdibdabubabcBeBvbbgabbbacacdijG
        kBubbgdcacBaBkByibbacdljgmtBqbabbibgjgtBcBadabbeajwHdBujacaDwDemhcachbbbxbebbgdbcjjCshcBp
        idbdBbakBngbehjagbdBtnacinCuhjHaBhojgibBloabfkBcdBfzahacaCxgbbbBlvajjgfbbbBkebbabahjLyscd
        jobBjibdwDiapBxnBJmDyEgbelHnDXkDunBPfrfzFXqfWkKDdBdmcdjCOsVwhBebjeDcbjgBdhakBvhokjbgbufsQ
        qCfHqDmDxCwfCdlmCmdBcJBziBVpBpjNFrdbgbbbLepaBdccaodiPfDKuEcfmdihjcacaFVkJpgQtGaElCiJlkBmc
        ChfcwbhBdeCivCndaEstmtmDijyFfDgbCsbbcacbcdblbabgbCmbdchbgbBbbdbebadgbNbcLfcVpCddByhbnbgBR
        wBegfKbCjFqBskgcjebMiBdsBrejfaRwBbejIgBdckeaSmgbdbbbobHociBwCphaejebBEfCpCyCiHmdbBabbbaca
        bjbdbabagaeabababcbbbacabababababbbacdbgbdbdbabjbqfcbebqCabKkBreDvmocobobBkkGrCeBcnBreihb
        ofFyBLveqdmdEoeDqgleapleCdijgBniBdclebCkNbmncmdjfCdhockgihFqbDxBNqCLFbBgGDtgIncINpoLBkpXx
        DQwUvCFyHHyfGFf"),
    (["grext", "graphemeextend"],
      "BDoEhKpgKdBsbabbbbbaCukBwuqaDxgcfcbbdBjaBeBaDnkCgijaydbibcbeBrcChiBqxbBfCdabaeheadgkbBdaCg
        abacdiajakbBaacbCfaebebccdaBebdalbCfaeebbeaubwfbaCgabbbdiahckbBeaChabamajaBoadaCdabcfcbdh
        blbBdaCgacbbadcbdhblbBcbCfbbacdiajakbBdaCuaeaccbaiaDdacgmhDuacilgCvbBbababaCdnbebbfkbBjja
        DydbfbbcbzbecqdnacbgapaBBbcBKkdBccBdbBebCmbbgiackjaBtcbaEnbBiaEocebjagcIlbcaCgabgbabachgj
        caBwBeBxdBwjecBmimbBgdcfCeabbdabeCehcbFwcbmbgeagadbHqClUeaHnBgEOccFlaDsBfVifEbbBSQedbjBgb
        DcbKmadaeazbfaFvbBarnaBmhzkbaBscBwacdcbcaBkaCpfcbcbmaiaBvaBzabccbfbbaBqbiaJeacaeaBDZsaBCj
        pqpOcbXhaIsaFteCMgcbbfdBoceaGjbWbdCneMfbDbdCskBxdEtaCcoBpacbkcBxdcbhaCjcBkebhCkambCaibaid
        caDrccdgacaGbadhvbCfbbabamajaogdeCpacfbacabcecbaobDhhccbaxaDdacfbacabbbbJbacdgbbbBbbDhhca
        bbEcabachDxabacdbeJzibbJlakdeaFodcbeaBgjBofcdiajfccBumbbPqgbfbaDevcgbbbbEsfdabbbgbaCubdab
        aNjblbCaefcxaHXtagoQYyldcDSaeChgBOiaCldDdalbBDAxbGYzBtcwUwedfihcgBedFscCYdCceBxiaoaweboCA
        igbqcgbbbeDwaGegOlaCjdTodJubBCigEfgBTCAfDrEyJf"),
    (["grlink", "graphemelink"],
      "DNpaExaExaExaExaExaExaExaEfbqaEuaEhaExaHtaGybCPlbBeaGbaZdaItaDxbCsbGQtaBUKkaBlaFvaFmaEeaLx
        aJmaBJSraCHiaBpaoaCfaErbFjaEmaGyaDuaEycEjaExaJsaExaEoaEmaKjaJzbGfaDfasaDdaQfaKabDdaQjbYZc
        a"),
    (["hex", "hexdigit"], "BwjhfBafDSLljhfBaf"),
    (["hyphen"], "BtaExaBVwaGZzaDBdbFIbaBClaCZUlaGnaDja"),
    (["idsb", "idsbinaryoperator"], "SEabcjTda"),
    (["idst", "idstrinaryoperator"], "SEcb"),
    (["idsu", "idsunaryoperator"], "SEob"),
    (["idcompatmathcontinue"], "GwbfaMAgadkboOhaeawaGJJeazaBfazaBfazaBfazaBfaza"),
    (["idcompatmathstart"], "MWwaeawaGJJeazaBfazaBfazaBfazaBfaza"),
    (["idc", "idcontinue"],
      "BwjhzeabzBvakabacafwbBebRpeloehabarEmbbcdbagebabtbDebFibecGjbBlcagBoiBsbabbbbbaiBaedBdkfCv
        eDxbhcjbscaqCgcDwoCbeacacBtsBbekfxbfiCwbEycjbsbhcbcvbgbaddcicbcdiaebbeclkabaccbfebcvbgbbb
        bbbcabeebccdahdbahplcbibcbvbgbbbecjbcbccapdcjjgbcbhcbcvbgbbbecicbcchcebbecjbaqbbfdcbddbba
        bbdbdcdleedcbdcagaojqmbcbwbpcibcbdhbbccacdcjqdbhbcbwbjbecibcbdhbgbbdcjbcmmbcbBybcbefdhecj
        kfbcbrdxbibacgdaefbabhgjcbnCffobjBnbbabebxbabwcebabgbjcdBgaxbgjlababaejbBjetbrbBjjaCfCvgC
        zcBlbafacBqbMubdcgbabdcBobdcBgbdcgbabdcobCebdcCoccjiopqDhcfdXvcqbzfCwdkhvjvltmmbcbbmDfdae
        bcjBhcbkgDkhBqfCrkBeblelkBncelBrezgkBlBbeCkbBcckgjnainbpBxCydjrimElmCdijdBwckfBqccqcbBmfU
        ncfcBlcfchbabababBecCabgbadcbgddcfemfcbgpbBxbtaBcanaqmBzmeadlraeacjbacfgabababpcdfeearBoD
        ZbIugimBlbafacCdhapxjgbgbgbgbgbgbgbgbBfTxczobeceeDhcgbDqfBqbDprBfBwpTsJTnCmBGUeCpBtcKidBb
        uBvejbEkBlicDycCocbbabhvCbeatBzmCrkjgxdabBwcBjmBcdCmokgBebCcjncjgwdCuyccpcekfcfcfjgbgbBqb
        ngEsbbcjgQNrmweBwMNcObcEbBmgmeflbmbebabbbbbEdBhNysClcCbBolepqpdbycBgebFetjhzeabzkDldfcfcf
        ccBjlbzbsbbbocnBiEsCrCaFgaFaBcdBwpaBfBfnBdfBqfBdcBjehbeBqGbcjgBjeBjeBniBzmkbobgbbbkbobgbb
        dBzmLyjvkhyfbBpbiCrfcabBrbbdacwkwjBeCnsbbkvkzCsCdgbCmdbbfhbcbBccceaBgBcdBcBjhbBdzCbkvksnr
        EgCuCdBynBynBnijgBldebwJqBpbbdbqcCdBgkaiBgBfvBquBbwjCsBfpjChhanyhjgCabjediBjcajCqedbmbaBj
        rbBkgdCkgbabdbobjhCgfjgdbhcbcvbgbbbebjcbcccagafgcgdeljbacabBlbjbacabdbhnbBdCwfjedBeCrbaij
        GkCbcixfBiCmdaljBmCehjgtBcBacoejggHdCgDxCvvhcachbbbBdbbcimjCshcBtchbbBbCkiaiCvdasCuHrBgpj
        gibBsbipjyBdcvbnCvgbbbBrdabbbiijgfbbbBkbbbfhjLywjqbBodenkDhaDbBJlDyEgrHnDXkDspBPfqvkFXqfW
        kKDdCfCOsVwhBebjgDabjgBdcelCcjdmjjufsQqBsdjHqClEyCweCehqCmbbblboJBziBVpBpjNFrdbgbbbLepaBd
        ccaodiPfDKuEcfmdihjdbGErjTyBtcwUwedfihcgBedFscRbDgbCsbbcacbcdblbabgbCmbdchbgbBbbdbebadgbN
        bcybybBebybBebybBebybBebybhcBxTsCceBxiaoaweboBQmBegfIfgbqcgbbbefCjBhaEiBsdncjeaMjBerCfScB
        pIgBqSrgbdbbbobHolgBpCxejBTudbBabbbacabjbdbabagaeabababcbbbacabababababbbacdbgbdbdbabjbqf
        cbebqFAajBNqCLFbBgGDtgIncINpoLBkpXxDQwUvCFyHHyfGFfBONHgJf"),
    (["ids", "idstart"],
      "CnzgzBvakaeafwbBebRpeloehabaEzebbcdbagabcbabtbDebFiiGjbBlcagBoCtBaedBtBqBjbbDubapbhbkccaqa
        bBdBdDklayBgjbeafveajadaxyhkfxbfrBpCgCbdasahjppehcbcvbgbadddaqanbbcobkaifebcvbgbbbbbbBfdb
        atcqibcbvbgbbbedasapbxalhcbcvbgbbbedaBebbcparabfdcbddbbabbdbdcdlwaCahbcbwbpdaBaccacbBeaeh
        bcbwbjbedaBfbbbpbribcbBocaqafcicyffrdxbibacgCgBvbbmgCgbbabebxbabjbbjacebavdBgaClhbBjBbeEl
        BquaqfeddadbhcemmarBlbafacBqbMubdcgbabdcBobdcBgbdcgbabdcobCebdcCoBlpqDhcfdXvcqbzfCwdkhrns
        orombcpBzBjaeaCpDkhBobafCrkBeBxBdcelBrezCcwjCaDeaDpBurhCcBdnbkBrBaBjBpckBjckfBqccBpdbfbbd
        afHjCmKrcfcBlcfchbabababBecCabgbadcbgddcfemfcbgEmanaqmDxaeacjbacfgabababpcdfeearBoDZbIugd
        dbmBlbafacCdhaqwjgbgbgbgbgbgbgbgVecziheceeDheebDlbdfBqbDprBfBwpTsJTnCmBGUeCpBtcKidpkbuBuq
        BecDbBnicDycCocbbabhvpbcbdbwBdBzoBxCkfdabblBbkwzBchBuBcaqebjkebBoxcbhuwdadBxbadbcecabaycc
        khcmfcfcfjgbgbBqbngEkBdQNrmweBwMNcObcEbBmgmefabjbmbebabbbbbEdBhNysClcCbBolEmebFeBkzgzlDkd
        fcfcfccBjlbzbsbbbocnBiEsCrCaKhBcdBwBvBfnBdfBlkBdcBjehbeBqGbsBjeBjeBniBzmkbobgbbbkbobgbbdB
        zmLyjvkhyfbBpbiCrfcabBrbbdacwkwjBeCnsbbkvkzCsCdgbCmapdbcbBcBqBcdBcBjhbBbBbCbkvksnrEgCuCdB
        ynBynBjBmBbjwJqBpgbqcChBckaivBqrBuuBbwmCaCfbcanBsBgyBaBjBdacaiBidamBvodvabaBjrbytbClgbabd
        bobjhBuBmhcbcvbgbbbedasameBejbacabBlbazabaBsCasducBeBvubbaHcBuBpdBkBvuaChBqnaCtBaBlgHdBrE
        mClBfhcachbbbxpabaDqhcBmqabaBcakBnhavalBttasCuHrBgBfibBkraBxBdEigbbbBlvazfbbbBfoaMpspabmb
        BhEuaDbBJlDyEgrHnDXkDspBPfrfzFXqfWkKDdBdCPuVwhBerDarBdsBvqdBfufsQqBsIdClEyCwfaComCmbbaBcJ
        BziBVpBpjNFrdbgbbbLepaBdccaodiPfDKuEcfmdihjIWkDgbCsbbcacbcdblbabgbCmbdchbgbBbbdbebadgbNbc
        ybybBebybBebybBebybBebybhCSyBegfKbCjFqBskgqaMjBdsBrSqBbIuBdcaTbgbdbbbobHoChCphaBUidbBabbb
        acabjbdbabagaeabababcbbbacabababababbbacdbgbdbdbabjbqfcbebqGOaCLFbBgGDtgIncINpoLBkpXxDQwU
        vCFyHHyfGFf"),
    (["ideo", "ideographic"],
      "SEwbziocBLdJTnCmBFBjBHSiObcEbBSIkaBbJBziBVpBpjNUlPfBDEiCLFbBgGDtgIncINpoLBkpXxDQwUvCFyHHyf
        GFf"),
    (["joinc", "joincontrol"], "MDob"),
    (["loe", "logicalorderexception"], "FKieEteEDsccaCCXmbcabb"),
    (["lower", "lowercase"],
      "DtzBvakaeaBkxbhbabababababababababababababababababababababababababababbbabababababababbbab
        abababababababababababababababababababababacababccabacadbeacadccacababacabbbacadabacbccga
        cacababababababababbbababababababababbcabadababababababababababababababababababababababab
        ababababababgcacbbaeababababCqbBjhbBeeDsaBrabadacdsaBbBibbdcbabababababababababababebacac
        bBzBvbababababababababababababababababajababababababababababababababababababababababababa
        babacababababababbbababababababababababababababababababababababababababababababababababab
        ababababababababababababaBwBoEHbBqbdBDgfDFuibaEnHjCnababababababababababababababababababa
        babababababababababababababababababababababababababababababababababababababababababababab
        abababababababababababibababababababababababababababababababababababababababababababababa
        babababababababababababababababiifkhihifkhihinchihihiebbgadcbbidcbihkcbbEranaqmEfadbdaBba
        eaeacbideaBhpeaBGlzCTqBvbadbbababaeabbbhdabababababababababababababababababababababababab
        abababababababababababababababababababababababababbhabaeamBlbafaBTWdababababababababababa
        babababababababababababatabababababababababababababcFdababababababcbababababababababababa
        babababababababababababababababababababjbabacababababaeabacabcbabababababababababafafabab
        abababababaeabacadabababababawcbabcBFpBqbngDbBEAigmeBOzzBVhBnFgBjFzkbobgbbRjaccbBpbiBXlBy
        EvvEGoBfBGJwBfBMMkzBagbrBazBadbabgbkBazBazBazBazBazBazBazBazBaBbBcybfBaybfBaybfBaybfBaybf
        baCSyjbtgfKbCjDHsBh"),
    (["math"],
      "BraqcBfaBdabaBtaeaBlaBfaBCaccaBabccUhcJWnaBbcladanaodveleCnmeadbeesaeacjbacfgadbcbbcbfdnba
        CqxbfbbebeBfbagboKhidubDmaBeBabayalgRdbmjefebcbdeoabacflhfbCfabaBddjcMyClJwTrBwucfDASqaBF
        rfbaGgaqcBdabaBdabaFbagdFEfbCXDwDgbCsbbcacbcdblbabgbCmbdchbgbBbbdbebadgbNbcLfcBxIIqdbBabb
        bacabjbdbabagaeabababcbbbacabababababbbacdbgbdbdbabjbqfcbebqCab"),
    (["mcm", "modifiercombiningmark"], "CKibcaFbagadbSnbbcdaBfa"),
    (["nchar", "noncharactercodepoint"],
      "DSDcBfUgbDSYobDSYobDSYobDSYobDSYobDSYobDSYobDSYobDSYobDSYobDSYobDSYobDSYobDSYobDSYobDSYob"),
    (["oalpha", "otheralphabetic"],
      "BGfaBdmWenbabbbbbaCukBwmbgqaDxgedcbeaBjaBepDykDxbdibcbdEcaCildggtCcbcobbfckbBdcCggcbcbkakb
        BdcCgeebcbeaBebdalcCghbcbbvbwcecCggcbcbjbkbBeaChedcbckaBoeCfgbcbciblbBdcCggbcbciblbpamdCg
        gbcbckakbBdcCxfbabhsbCjacgsaDvacfbbqaGhsjkbBjEglbacdxdecbccgddnlbakdCLobBebBebBebCosHgbBi
        aEoleiIoeCfjctCwblcBxeBwoCicBeicbCfkBysPwBhCOnBzDKgBfBTQahBibNqaiaxeDkbBypbaCfaBmeBclBtdB
        wlBlaCpnmaibBtcByabccbfaBsefaJdhBDZvaDEdeCMgcbbfdBEidCnaMjbDbaJzcCbnBtblcBtijaCjcBklsbCfc
        BwmobDoicagacaGbjxdCggcbcbkakbDgibacabdbbDzmbcEcrJdgcgBdbDeobaEckDznJxmJnfbbcbdabaFmgcfea
        BcjBqebdskBunPrhbgDfvbnEsfdabbbcbadaCoebbbdNkdjbbaBwgdcYYnqFJcabCchdDpbBDAyaNKjgbqcgbbbeD
        waDHvaCZwzgzgz"),
    (["odi", "otherdefaultignorablecodepoint"], "BGpaFIlbCKhbDHnaGLiaDACpaDbiBWMIhabBdDsExJgFIl"),
    (["ogrext", "othergraphemeextend"],
      "DRyayaNuayaDyayaIyabaebbbjbDzayaEpapaDMraBeaBNkafabafbDxaCtbBOiaGCvbBTWtaEeaBGNlbGWmaEmaKe
        aoajaDsajacabcfaIqamaJhaKcaYjamaCHfaBEOkbBKXnbgfBTLAzDr"),
    (["oidc", "otheridcontinue"], "HbaBBraGAjiCLcaCIzbGKraDAEja"),
    (["oids", "otheridstart"], "JHlbDGjavaFVwb"),
    (["olower", "otherlowercase"],
      "GoapaThihbBeeDsaCaaFCzaEPzCknaBiBkBAnanaqmIdpBGqzCWobBUGkbIcaEzcdbBHidjaBIWsaccbBpbiDDZhCj"),
    (["omath", "othermath"],
      "DqaBHxccaBabcbKQyaBbclaBgdybobCnmeadbeesaeacjbadegadbcbbcbfddfeCxecdbbbbbabecbebercbbabgba
        gbLedGmbbayaraRdbmifefbcbdeoabacfybCfabaBddjbNebBfjPnvCldBgbDCLfabaeaIdabaDCOvDgbCsbbcacb
        cdblbabgbCmbdchbgbBbbdbebadgbNbcybybBebybBebybBebybBebybhcBxIIqdbBabbbacabjbdbabagaeababa
        bcbbbacabababababbbacdbgbdbdbabjbqfcbebq"),
    (["oupper", "otheruppercase"], "MQqpBGgzGSIyzgzgz"),
    (["patsyn", "patternsyntax"],
      "BhokgBadbaBadBigbabbbabbeaeadaxaBfaLUexiocsbjLtBBrGeYfBeBRnTsExOvceypaCZQzbKbb"),
    (["patws", "patternwhitespace"], "jesaDwaLYmbyb"),
    (["pcm", "prependedconcatenationmark"], "CHcfIhaBxaOubDcaDVXyapa"),
    (["qmark", "quotationmark"], "BiaeaFbapaLWuhzbFIdaRpdncDABpdHhaeaDmb"),
    (["radical"], "RPwzbDkmIf"),
    (["ri", "regionalindicator"], "HGOkz"),
    (["sterm", "sentenceterminal"],
      "BhamaqaCAbaFrcGyaBrcJmaCjabadbLhbCPwbBEkaebBDtaHqbGbbBtafaMcbNqdGgbkbcbBdcHfbCnbBJwaxbjcEU
        xcLuanawbQnaBSHwaKkbItadaOsbDibDraFwbFrcFobJpaBFCwacbChadbGnamaqaCnaEDwbBXdeBsdHhbEndExcE
        zbgaqbDkbbbEeaLmbEnbOjbfoEbbJpcTxabaJrbDjbQebBAqbCwbBCMbbFdaCnblaVhbLkaBDOgaLIma"),
    (["sd", "softdotted"],
      "EbbHoaKvaBeaCaauaMiaDuabaJMnaBzanadaFcaGbaQfaIgbEGgaGELhbBybBybBybBybBybBybBybBybBybBybByb
        BybDFyaLtbBaa"),
    (["term", "terminalpunctuation"],
      "BhakabalbdaBFyaiaTtaCfaCuaoabcGyaBrkbaJbbCcfbhBfaKbbBWubGqaefLzbBEjhBDtaEucCtbGbcdaBndcbMc
        bNqdGgbkbbcBdcHfeCkbBJwaxbjcEUxcLuanaeakabbdbQmbBSHvbKjcIteOsbDibDraFvcFrcExaqbJpaBFCwacb
        CfcbdGnakabalbdaCnacaBPqaBwaBSoaHraLybFwfCqfDldBKqeBsdHhgEidExcEzbgaqbDkeEeaLmbEncmbNuddo
        EbbJpcTxabaJrbDjbebPycBtaYvbCwbBYxeBAMzbFdaCnckaVhbLjbBDOgaLIld"),
    (["uideo", "unifiedideograph"],
      "TSaJTnCmBFBjBICsbbabbkababbccDVEcCLFbBgGDtgIncINpoLBkpXxGRqHHyfGFf"),
    (["upper", "uppercase"],
      "CnzDxwbgBhabababababababababababababababababababababababababababacabababababababacabababab
        abababababababababababababababababababbbabadbbabbbccdbbbcdbbbbababbbacabbbcbabbdahacacaca
        bababababababacababababababababacacabcbababababababababababababababababababababababababab
        abababahbbbcabdbabababaLdabadaiagabcbabbbqbiBjaccdabababababababababababafacabbcByBwababa
        babababababababababababababajabababababababababababababababababababababababababababbbabab
        abababacababababababababababababababababababababababababababababababababababababababababa
        bababababababacBlEHdBlbafaBBuDhDGlagBqccMiabababababababababababababababababababababababa
        babababababababababababababababababababababababababababababababababababababababababababab
        ababababababajabababababababababababababababababababababababababababababababababababababa
        bababababababababababajhifkhihiflabababaihCudmdmdmeldKcaeadccccadegabababdcdkbfaBaptaBFmz
        CSuBvBwabccabababdbacaicbabababababababababababababababababababababababababababababababab
        ababababababababababababababababaiabaeaBTYjababababababababababababababababababababababat
        abababababababababababababaFfababababababadababababababababababababababababababababababab
        abababababababakababbbabababaeabacabadababababababababababebebabababababababdbabbdafababa
        bayaBHAhzBUzBnFgBjGakbobgbbCQcByGbvEGoBfBGJwBfBMMqzBazBazBaabbcacbcdbhBazBabbdchbgBbbbdbe
        badgBbzBazBazBazBazBazBeyBhyBhyBhyBhyBhaGNlBhDBizgzgz"),
    (["vs", "variationselector"], "JCtcbaDJCapBWNKyJf"),
    (["wspace", "whitespace", "space"], "jesaDwaBaaIHjaDPnkBdbfaBvaFXwa"),
    (["xidc", "xidcontinue"],
      "BwjhzeabzBvakabacafwbBebRpeloehabarEmbbdcbagebabtbDebFibecGjbBlcagBoiBsbabbbbbaiBaedBdkfCv
        eDxbhcjbscaqCgcDwoCbeacacBtsBbekfxbfiCwbEycjbsbhcbcvbgbaddcicbcdiaebbeclkabaccbfebcvbgbbb
        bbbcabeebccdahdbahplcbibcbvbgbbbecjbcbccapdcjjgbcbhcbcvbgbbbecicbcchcebbecjbaqbbfdcbddbba
        bbdbdcdleedcbdcagaojqmbcbwbpcibcbdhbbccacdcjqdbhbcbwbjbecibcbdhbgbbdcjbcmmbcbBybcbefdhecj
        kfbcbrdxbibacgdaefbabhgjcbnCffobjBnbbabebxbabwcebabgbjcdBgaxbgjlababaejbBjetbrbBjjaCfCvgC
        zcBlbafacBqbMubdcgbabdcBobdcBgbdcgbabdcobCebdcCoccjiopqDhcfdXvcqbzfCwdkhvjvltmmbcbbmDfdae
        bcjBhcbkgDkhBqfCrkBeblelkBncelBrezgkBlBbeCkbBcckgjnainbpBxCydjrimElmCdijdBwckfBqccqcbBmfU
        ncfcBlcfchbabababBecCabgbadcbgddcfemfcbgpbBxbtaBcanaqmBzmeadlraeacjbacfgabababpcdfeearBoD
        ZbIugimBlbafacCdhapxjgbgbgbgbgbgbgbgbBfTxczobeceeDhcbccbDqfBqbDprBfBwpTsJTnCmBGUeCpBtcKid
        BbuBvejbEkBlicDycCocbbabhvCbeatBzmCrkjgxdabBwcBjmBcdCmokgBebCcjncjgwdCuyccpcekfcfcfjgbgbB
        qbngEsbbcjgQNrmweBwMNcObcEbBmgmeflbmbebabbbbbEdBhFigIjsClcCbBojgpqpdbycBhabadababababEvtj
        hzeabzkDldfcfcfccBjlbzbsbbbocnBiEsCrCaFgaFaBcdBwpaBfBfnBdfBqfBdcBjehbeBqGbcjgBjeBjeBniBzm
        kbobgbbbkbobgbbdBzmLyjvkhyfbBpbiCrfcabBrbbdacwkwjBeCnsbbkvkzCsCdgbCmdbbfhbcbBccceaBgBcdBc
        BjhbBdzCbkvksnrEgCuCdBynBynBnijgBldebwJqBpbbdbqcCdBgkaiBgBfvBquBbwjCsBfpjChhanyhjgCabjedi
        BjcajCqedbmbaBjrbBkgdCkgbabdbobjhCgfjgdbhcbcvbgbbbebjcbcccagafgcgdeljbacabBlbjbacabdbhnbB
        dCwfjedBeCrbaijGkCbcixfBiCmdaljBmCehjgtBcBacoejggHdCgDxCvvhcachbbbBdbbcimjCshcBtchbbBbCki
        aiCvdasCuHrBgpjgibBsbipjyBdcvbnCvgbbbBrdabbbiijgfbbbBkbbbfhjLywjqbBodenkDhaDbBJlDyEgrHnDX
        kDspBPfqvkFXqfWkKDdCfCOsVwhBebjgDabjgBdcelCcjdmjjufsQqBsdjHqClEyCweCehqCmbbblboJBziBVpBpj
        NFrdbgbbbLepaBdccaodiPfDKuEcfmdihjdbGErjTyBtcwUwedfihcgBedFscRbDgbCsbbcacbcdblbabgbCmbdch
        bgbBbbdbebadgbNbcybybBebybBebybBebybBebybhcBxTsCceBxiaoaweboBQmBegfIfgbqcgbbbefCjBhaEiBsd
        ncjeaMjBerCfScBpIgBqSrgbdbbbobHolgBpCxejBTudbBabbbacabjbdbabagaeabababcbbbacabababababbba
        cdbgbdbdbabjbqfcbebqFAajBNqCLFbBgGDtgIncINpoLBkpXxDQwUvCFyHHyfGFfBONHgJf"),
    (["xids", "xidstart"],
      "CnzgzBvakaeafwbBebRpeloehabaEzebbdcbagabcbabtbDebFiiGjbBlcagBoCtBaedBtBqBjbbDubapbhbkccaqa
        bBdBdDklayBgjbeafveajadaxyhkfxbfrBpCgCbdasahjppehcbcvbgbadddaqanbbcobkaifebcvbgbbbbbbBfdb
        atcqibcbvbgbbbedasapbxalhcbcvbgbbbedaBebbcparabfdcbddbbabbdbdcdlwaCahbcbwbpdaBaccacbBeaeh
        bcbwbjbedaBfbbbpbribcbBocaqafcicyffrdxbibacgCgBvbangCgbbabebxbabjbakacebavdBgaClhbBjBbeEl
        BquaqfeddadbhcemmarBlbafacBqbMubdcgbabdcBobdcBgbdcgbabdcobCebdcCoBlpqDhcfdXvcqbzfCwdkhrns
        orombcpBzBjaeaCpDkhBobafCrkBeBxBdcelBrezCcwjCaDeaDpBurhCcBdnbkBrBaBjBpckBjckfBqccBpdbfbbd
        afHjCmKrcfcBlcfchbabababBecCabgbadcbgddcfemfcbgEmanaqmDxaeacjbacfgabababpcdfeearBoDZbIugd
        dbmBlbafacCdhaqwjgbgbgbgbgbgbgbgVecziheceeDhgcbDlbdfBqbDprBfBwpTsJTnCmBGUeCpBtcKidpkbuBuq
        BecDbBnicDycCocbbabhvpbcbdbwBdBzoBxCkfdabblBbkwzBchBuBcaqebjkebBoxcbhuwdadBxbadbcecabaycc
        khcmfcfcfjgbgbBqbngEkBdQNrmweBwMNcObcEbBmgmefabjbmbebabbbbbEdBhFigIjsClcCbBojEpabadababab
        abEvBkzgzlCdcBedfcfcfccBjlbzbsbbbocnBiEsCrCaKhBcdBwBvBfnBdfBlkBdcBjehbeBqGbsBjeBjeBniBzmk
        bobgbbbkbobgbbdBzmLyjvkhyfbBpbiCrfcabBrbbdacwkwjBeCnsbbkvkzCsCdgbCmapdbcbBcBqBcdBcBjhbBbB
        bCbkvksnrEgCuCdBynBynBjBmBbjwJqBpgbqcChBckaivBqrBuuBbwmCaCfbcanBsBgyBaBjBdacaiBidamBvodva
        baBjrbytbClgbabdbobjhBuBmhcbcvbgbbbedasameBejbacabBlbazabaBsCasducBeBvubbaHcBuBpdBkBvuaCh
        BqnaCtBaBlgHdBrEmClBfhcachbbbxpabaDqhcBmqabaBcakBnhavalBttasCuHrBgBfibBkraBxBdEigbbbBlvaz
        fbbbBfoaMpspabmbBhEuaDbBJlDyEgrHnDXkDspBPfrfzFXqfWkKDdBdCPuVwhBerDarBdsBvqdBfufsQqBsIdClE
        yCwfaComCmbbaBcJBziBVpBpjNFrdbgbbbLepaBdccaodiPfDKuEcfmdihjIWkDgbCsbbcacbcdblbabgbCmbdchb
        gbBbbdbebadgbNbcybybBebybBebybBebybBebybhCSyBegfKbCjFqBskgqaMjBdsBrSqBbIuBdcaTbgbdbbbobHo
        ChCphaBUidbBabbbacabjbdbabagaeabababcbbbacabababababbbacdbgbdbdbabjbqfcbebqGOaCLFbBgGDtgI
        ncINpoLBkpXxDQwUvCFyHHyfGFf")]

def property? (name : String) : Option CharSet :=
  (properties.find? (·.1.contains name)).map fun (_, text) => setOf text

def addedLetters : String :=
  "DGhaBLkaExaCGRpbcabaBcaBKWczCBjcBybESahWmBrBEPgycyLaeJCjhBXpvDtEkBHQjBebvibDAWgfIWglBGFaGJh"

def addedNumbers : String :=
  "EEGujBFBuc"

def addedPrintable : String :=
  "DGhaBLkaExaHNwaECqaBVBbbcabaBcaBFThpRdbCcgEIrzCBjciiETkadabaWmBrejBEOsycyLaeJCjhBXpvDtEkXWpcRd
    wpqJAlBebcbbbgcejbGAaaGcdNdiOpdByadaCfaeaBcaeaKgaCSXrfIWglBGFaGJh"

def letters : CharSet := ((property? "alphabetic").getD .empty).union (setOf addedLetters)

def lettersAndNumbers : CharSet :=
  (letters.union (ofCategories ["nd", "nl", "no"])).union (setOf addedNumbers)

/-- Characters that extend the one before them, separators other than the space, and all that stand
for no visible character. -/
def unprintable : CharSet :=
  let invisible := ofCategories ["cc", "cf", "cs", "co", "cn", "zl", "zp", "zs"]
  ((((property? "graphemeextend").getD .empty).union invisible).difference
    (setOf addedPrintable)).difference (.range 32 32)

end BytecodeMutation.Unicode
